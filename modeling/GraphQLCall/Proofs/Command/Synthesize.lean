import GraphQLCall.Proofs.Call.Failure
import GraphQLCall.Proofs.Command.Steps
import GraphQLCall.Proofs.Command.Variables
import GraphQLCall.Proofs.Text.Utf8
import Mathlib

/-!
# The command: when a call is written

A run writes the call that it is asked for if its files say what they should and its names are names,
and writes nothing otherwise.

* `addAll_eq_ok_iff`   arguments are added if their names all differ
* `World.Spells`, `World.Asks`   the call that a run is asked to write
* `comesTo_addFile`, `comesTo_writeDocument`, `comesTo_synthesize`   what the steps come to
* `run_synthesize`   what is seen of a run
* `quietWorld`   a world in which a call is asked for
-/

namespace GraphQLCall.Command

open Steps

/-! ### arguments -/

theorem addAll_eq_ok_iff {c c' : OperationCall} {vs : List Variable}
    (hnodup : c.argumentNames.Nodup) : addAll c vs = .ok c' ↔
      (c.argumentNames ++ vs.map (·.argumentName)).Nodup ∧
        c' = { c with arguments := c.arguments ++ vs } := by
  induction vs generalizing c with
  | nil =>
    rw [addAll, List.map_nil, List.append_nil, List.append_nil]
    exact ⟨fun h => ⟨hnodup, (Except.ok.inj h).symm⟩, fun h => h.2 ▸ rfl⟩
  | cons v rest ih =>
    rw [addAll, OperationCall.add]
    by_cases htaken : v.argumentName ∈ c.argumentNames
    · rw [if_pos htaken]
      refine ⟨nofun, fun h => ?_⟩
      have hapart := List.disjoint_of_nodup_append h.1
      exact absurd List.mem_cons_self (hapart htaken)
    · rw [if_neg htaken]
      have hnames : ({ c with arguments := c.arguments ++ [v] } : OperationCall).argumentNames =
          c.argumentNames ++ [v.argumentName] := List.map_append
      have hmore : (c.argumentNames ++ [v.argumentName]).Nodup := by
        rw [← List.concat_eq_append]
        exact hnodup.concat htaken
      dsimp only
      rw [ih (hnames ▸ hmore), hnames, List.append_assoc, List.append_assoc]
      rfl

theorem addAll_error {c : OperationCall} {vs : List Variable} {e : CallError}
    (h : addAll c vs = .error e) : ∃ name, e = .duplicateArgument name := by
  induction vs generalizing c with
  | nil => cases h
  | cons v rest ih =>
    rw [addAll, OperationCall.add] at h
    by_cases htaken : v.argumentName ∈ c.argumentNames
    · rw [if_pos htaken] at h
      cases h
      exact ⟨_, rfl⟩
    · rw [if_neg htaken] at h
      exact ih h

namespace World

variable (w : World)

/-- **The arguments of a call:** those that the entries of a file spell, in their order, or none. -/
def Spells : Option String → List Variable → Prop
  | none, vs => vs = []
  | some path, vs => ∃ items, w.Holds path (.arr items) ∧
      List.Forall₂ Json.SpellsVariable items vs

/-- **The call that a run is asked to write.**  The command line and the files say what it is; the
names of its arguments all differ, those of arguments that are null too; all its names are names; and
it has a selection set. -/
structure Asks (a : SynthesizeArguments) (c : OperationCall) : Prop where
  kind : c.kind = a.kind
  name : c.name = a.operation
  override : c.selectionOverride = a.selectionSet
  result : w.Describes a.shape c.result
  arguments : w.Spells a.variableFile c.arguments
  distinct : c.argumentNames.Nodup
  named : c.Named
  selects : c.Selects noTypes

variable {w}

/-- **What data spells has finite numbers alone.** -/
theorem Spells.finite {file : Option String} {vs : List Variable} (h : w.Spells file vs) :
    ∀ v ∈ vs, v.Finite := by
  cases file with
  | none =>
    cases h
    exact List.forall_mem_nil _
  | some path =>
    obtain ⟨items, hholds, hspells⟩ := h
    have hregular := hholds.regular.of_items
    clear hholds
    induction hspells with
    | nil => exact List.forall_mem_nil _
    | cons hv _ ih =>
      obtain ⟨hitem, hrest⟩ := List.forall_mem_cons.mp hregular
      exact List.forall_mem_cons.mpr ⟨hv.finite hitem, ih hrest⟩

end World

/-! ### steps -/

variable (w : World)

theorem comesTo_addFile (c : OperationCall) (hc : c.arguments = []) (file : Option String) :
    (addFile w c file).ComesTo (fun c' => ∃ vs, w.Spells file vs ∧
      (vs.map (·.argumentName)).Nodup ∧ c' = { c with arguments := vs }) Failure.NotNonFinite := by
  have hnames : c.argumentNames = [] := by rw [OperationCall.argumentNames, hc, List.map_nil]
  cases file with
  | none =>
    refine (comesTo_pure c).congr fun c' => ?_
    have hsame : ({ c with arguments := [] } : OperationCall) = c := by rw [← hc]
    simp [World.Spells, hsame]
  | some path =>
    have hnoArray : Failure.NotNonFinite (.notVariables path) := by rintro place ⟨⟩
    have htaken (name : String) : Failure.NotNonFinite (.call (.duplicateArgument name)) := by
      rintro place ⟨⟩
    refine ((comesTo_loadJson w path).bind
      (Q := fun j c' => ∃ vs, readVariables j = some vs ∧ addAll c vs = .ok c') ?_).congr ?_
    · intro j hj
      cases hread : readVariables j with
      | none =>
        dsimp only
        refine (comesTo_throw hnoArray).congr fun c' => ?_
        simp
      | some vs =>
        refine ComesTo.behind_say ((comesTo_ofExcept fun e he => ?_).congr fun c' => ?_) _
        · obtain ⟨name, rfl⟩ := addAll_error he
          exact htaken name
        · simp
    · intro c'
      constructor
      · rintro ⟨j, hj, vs, hread, hadd⟩
        obtain ⟨items, rfl, hspells⟩ := (readVariables_eq_some_iff hj.regular).mp hread
        obtain ⟨hnodup, rfl⟩ := (addAll_eq_ok_iff (by rw [hnames]; exact .nil)).mp hadd
        rw [hnames, List.nil_append] at hnodup
        rw [hc, List.nil_append]
        exact ⟨vs, ⟨items, hj, hspells⟩, hnodup, rfl⟩
      · rintro ⟨vs, ⟨items, hj, hspells⟩, hnodup, rfl⟩
        refine ⟨_, hj, vs, (readVariables_eq_some_iff hj.regular).mpr ⟨items, rfl, hspells⟩, ?_⟩
        refine (addAll_eq_ok_iff (by rw [hnames]; exact .nil)).mpr ⟨?_, ?_⟩
        · rw [hnames, List.nil_append]
          exact hnodup
        · rw [hc, List.nil_append]

theorem document_ne_nonFinite {c : OperationCall} (hfinite : ∀ v ∈ c.arguments, v.Finite)
    {e : CallError} (h : c.document noTypes = .error e) : Failure.NotNonFinite (.call e) := by
  rintro place ⟨⟩
  cases OperationCall.document_eq_error_iff_firstFailure.mp h with
  | @number before after v p _ _ hcall _ hp =>
    have hmem : p ∈ v.value.nonFinite v.markers .root := List.mem_of_mem_head? hp
    obtain ⟨x, hx, hinfinite⟩ := Value.mem_nonFinite_iff.mp hmem
    have hv : v ∈ c.arguments := by
      rw [hcall]
      exact List.mem_append_right _ List.mem_cons_self
    rw [hfinite v hv p x hx] at hinfinite
    cases hinfinite

theorem comesTo_writeDocument {c : OperationCall} (hfinite : ∀ v ∈ c.arguments, v.Finite) :
    (writeDocument c).ComesTo (c.document noTypes = .ok ·) Failure.NotNonFinite := by
  -- what the first two steps refuse, the last would refuse for the same reason
  have hnames : (Steps.ofExcept .call c.checkNames).ComesTo (c.checkNames = .ok ·)
      Failure.NotNonFinite :=
    comesTo_ofExcept fun e he =>
      document_ne_nonFinite hfinite (OperationCall.document_eq_error_iff.mpr (.inl he))
  have hselection (hnamed : c.Named) : (Steps.ofExcept .call (c.selectionText noTypes)).ComesTo
      (c.selectionText noTypes = .ok ·) Failure.NotNonFinite :=
    comesTo_ofExcept fun e he => document_ne_nonFinite hfinite
      (OperationCall.document_eq_error_iff.mpr (.inr ⟨hnamed, .inl he⟩))
  have hdocument : (Steps.ofExcept .call (c.document noTypes)).ComesTo (c.document noTypes = .ok ·)
      Failure.NotNonFinite := comesTo_ofExcept fun e he => document_ne_nonFinite hfinite he
  refine (hnames.bind fun _ hok => (hselection (OperationCall.checkNames_eq_ok_iff.mp hok)).bind
    fun _ _ => ComesTo.behind_say (hdocument.bind fun document _ =>
      ComesTo.behind_say (comesTo_pure document) _) _).congr fun text => ?_
  constructor
  · rintro ⟨-, -, -, -, document, hdocument, rfl⟩
    exact hdocument
  · intro h
    obtain ⟨hnamed, hselects, -⟩ := OperationCall.document_eq_ok_iff.mp ⟨text, h⟩
    obtain ⟨selection, hselection⟩ := OperationCall.selectionText_eq_ok_iff.mpr hselects
    exact ⟨(), OperationCall.checkNames_eq_ok_iff.mpr hnamed, selection, hselection, text, h, rfl⟩

/-- the call that the command line asks for, without arguments -/
def SynthesizeArguments.call (a : SynthesizeArguments) (result : Shape) : OperationCall :=
  ⟨a.kind, a.operation, result, a.selectionSet, []⟩

theorem comesTo_synthesize (config : Option String) (a : SynthesizeArguments) :
    (synthesize w config a).ComesTo (fun text => ∃ settings, w.Configures config settings ∧
      ∃ c, w.Asks a c ∧ c.synthesize noTypes
        ⟨a.envelopeField.getD settings.synthesis.envelopeField,
          a.pretty || settings.synthesis.prettyEnvelope⟩ = .ok text) Failure.NotNonFinite := by
  -- whether a selection set is given or not, it is a field of the call
  have hsteps : synthesize w config a = (do
      let settings ← loadConfig w config
      let result ← loadShape w a.shape
      let c ← addFile w (a.call result) a.variableFile
      let document ← writeDocument c
      pure (SynthesisOptions.wrap ⟨a.envelopeField.getD settings.synthesis.envelopeField,
        a.pretty || settings.synthesis.prettyEnvelope⟩ document)) := by
    unfold synthesize SynthesizeArguments.call
    cases a.selectionSet <;> rfl
  rw [hsteps]
  refine ((comesTo_loadConfig w config).bind fun settings _ =>
    (comesTo_loadShape w a.shape).bind fun result _ =>
    (comesTo_addFile w (a.call result) rfl a.variableFile).bind fun c hc =>
    (comesTo_writeDocument ?_).bind fun document _ => comesTo_pure _).congr fun text => ?_
  · obtain ⟨vs, hvs, -, rfl⟩ := hc
    exact hvs.finite
  · refine exists_congr fun settings => and_congr_right fun _ => ?_
    constructor
    · rintro ⟨result, hresult, c, ⟨vs, hvs, hnodup, rfl⟩, document, hdocument, rfl⟩
      obtain ⟨hnamed, hselects, -⟩ := OperationCall.document_eq_ok_iff.mp ⟨document, hdocument⟩
      refine ⟨{ a.call result with arguments := vs },
        ⟨rfl, rfl, rfl, hresult, hvs, hnodup, hnamed, hselects⟩, ?_⟩
      rw [OperationCall.synthesize, hdocument]
      rfl
    · rintro ⟨c, hc, htext⟩
      obtain ⟨document, hdocument, rfl⟩ := Outcome.map_eq_ok_iff.mp htext
      refine ⟨c.result, hc.result, c, ⟨c.arguments, hc.arguments, hc.distinct, ?_⟩, document,
        hdocument, rfl⟩
      obtain ⟨kind, name, result, selectionOverride, arguments⟩ := c
      obtain rfl : kind = a.kind := hc.kind
      obtain rfl : name = a.operation := hc.name
      obtain rfl : selectionOverride = a.selectionSet := hc.override
      rfl

/-! ### what is seen of a run -/

theorem output_finish (verb operation : String) (setting : Log.Setting) (s : Steps String) :
    (finish verb operation setting s).output = (s.run.run setting.lines).1.toOption := by
  unfold finish
  cases hrun : s.run.run setting.lines with
  | mk result lines => cases result <;> rfl

theorem exitCode_finish (verb operation : String) (setting : Log.Setting) (s : Steps String) :
    (finish verb operation setting s).exitCode =
      if (s.run.run setting.lines).1.toBool then 0 else 1 := by
  unfold finish
  cases hrun : s.run.run setting.lines with
  | mk result lines => cases result <;> rfl

variable {w}

/-- **When a call is written.**  Whatever the configuration, the command line and the files: the
command succeeds just if there is a call that it is asked to write.  It then prints the envelope of
that call, as the configuration has it and the command line changes it.  Else it prints nothing and
fails.  It never fails for a number without a literal: data has none. -/
theorem run_synthesize {words : List String} {i : Invocation} {a : SynthesizeArguments}
    {settings : Config} (hread : Invocation.read words = .ok i) (htask : i.task = .synthesize a)
    (hconfig : w.Configures i.config settings) :
    let options : SynthesisOptions := ⟨a.envelopeField.getD settings.synthesis.envelopeField,
      a.pretty || settings.synthesis.prettyEnvelope⟩
    ((run w words).exitCode = 0 ↔ ∃ c, w.Asks a c) ∧
    (∀ c, w.Asks a c → ∃ text, c.synthesize noTypes options = .ok text ∧
      (run w words).output = some text) ∧
    ((¬ ∃ c, w.Asks a c) → (run w words).output = none ∧ (run w words).exitCode = 1) ∧
    (∀ lines place,
      ((synthesize w i.config a).run.run lines).1 ≠ .error (.call (.nonFinite place))) ∧
    ∀ path j, w.Holds path j → ∀ m place p x, (Value.ofJson j).WritesFloat m place p x →
      x.isFinite = true := by
  intro options
  -- the result is the same whatever lines are kept
  obtain ⟨r, hr, hok, herror⟩ := comesTo_synthesize w i.config a
  have hrun : run w words = finish "synthesize" a.operation
      (Log.Setting.choose i.verbose w.logLevel) (synthesize w i.config a) := by
    unfold run
    rw [hread]
    dsimp only
    rw [htask]
  have houtput : (run w words).output = r.toOption := by rw [hrun, output_finish, hr]
  have hexit : (run w words).exitCode = if r.toBool then 0 else 1 := by
    rw [hrun, exitCode_finish, hr]
  have hasks {text : String} (h : r = .ok text) : ∃ c, w.Asks a c ∧
      c.synthesize noTypes options = .ok text := by
    obtain ⟨settings', hconfig', c, hc, htext⟩ := (hok text).mp h
    rw [← hconfig.unique hconfig'] at htext
    exact ⟨c, hc, htext⟩
  have hgives {c : OperationCall} (hc : w.Asks a c) :
      ∃ text, c.synthesize noTypes options = .ok text ∧ r = .ok text := by
    obtain ⟨document, hdocument⟩ :=
      OperationCall.document_eq_ok_iff.mpr ⟨hc.named, hc.selects, hc.arguments.finite⟩
    have htext : c.synthesize noTypes options = .ok (options.wrap document) := by
      rw [OperationCall.synthesize, hdocument]
      rfl
    exact ⟨_, htext, (hok _).mpr ⟨settings, hconfig, c, hc, htext⟩⟩
  refine ⟨⟨fun h => ?_, ?_⟩, ?_, ?_, ?_, ?_⟩
  · cases r with
    | ok text =>
      obtain ⟨c, hc, -⟩ := hasks rfl
      exact ⟨c, hc⟩
    | error e =>
      rw [hexit] at h
      exact absurd h (show ¬ (1 : UInt32) = 0 by decide)
  · rintro ⟨c, hc⟩
    obtain ⟨text, -, htext⟩ := hgives hc
    rw [hexit, htext]
    rfl
  · intro c hc
    obtain ⟨text, henvelope, htext⟩ := hgives hc
    refine ⟨text, henvelope, ?_⟩
    rw [houtput, htext]
    rfl
  · intro hnone
    cases r with
    | ok text =>
      obtain ⟨c, hc, -⟩ := hasks rfl
      exact absurd ⟨c, hc⟩ hnone
    | error e =>
      rw [houtput, hexit]
      exact ⟨rfl, rfl⟩
  · intro lines place
    rw [hr]
    exact fun h => herror _ h place rfl
  · intro path j hholds m place p x hx
    exact hholds.regular.finite hx

/-! ### an example -/

/-- a world with a file of settings, a descriptor, and a file of one variable, whose number does not
fit 64 bits with a sign -/
def quietWorld : World where
  file path :=
    if path = "settings" then .content (Utf8.octets "synthesis.envelope_field = \"q\"")
    else if path = "shape" then .content (Utf8.octets "\x7b\"tags\":[null]\x7d")
    else if path = "variables" then
      .content (Utf8.octets "[\x7b\"alias\":\"b\",\"name\":\"a\",\"value\":18446744073709551615\x7d]")
    else .unopened "No such file or directory (os error 2)"
  input := []
  logLevel := none

def quietWords (shape : String) : List String :=
  ["--config=settings", "synthesize", "--kind=QUERY", "--operation=find", "--shape", shape,
    "--variables", "variables"]

def quietArguments (shape : String) : SynthesizeArguments :=
  ⟨.query, "find", some "variables", some shape, none, none, false⟩

def quietShape : Shape := .record none [("tags", .list (.scalar .any))]

def quietCall : OperationCall :=
  ⟨.query, "find", quietShape, none,
    [⟨"a", .ofJson (.int 18446744073709551615), .scalar .float, ⟨some "b", [], false⟩⟩]⟩

theorem quietWorld_configures :
    quietWorld.Configures (some "settings") ⟨.default, ⟨"q", false⟩⟩ := by
  refine ⟨_, _, .obj [("synthesis", .obj [("envelope_field", .str "q")])], rfl,
    Utf8.text?_octets _, ?_, ?_⟩
  · cbv
  · cbv

theorem quietShape_selectionSet : quietShape.selectionSet noTypes = .ok "\x7btags\x7d" := by cbv

theorem quietWorld_asks : quietWorld.Asks (quietArguments "shape") quietCall := by
  have hfloat : Value.ofJson (.int 18446744073709551615) =
      .float (Number.Binary.ofInt 18446744073709551615) := by
    rw [Value.ofJson, Value.ofInteger, if_neg (by decide)]
  have hdeclared : Shape.scalar .float =
      .ofValue (Value.ofJson (.int 18446744073709551615)) := by rw [hfloat, Shape.ofValue]
  refine ⟨rfl, rfl, rfl, ?_, ?_, by decide, ?_, ?_⟩
  · exact ⟨.obj [("tags", .arr [.null])], ⟨_, rfl, by cbv⟩, .object (.cons (.list .null) .nil)⟩
  · refine ⟨[.obj [("alias", .str "b"), ("name", .str "a"),
      ("value", .int 18446744073709551615)]], ⟨_, rfl, by cbv⟩, .cons ?_ .nil⟩
    exact ⟨rfl, ⟨_, rfl, rfl⟩, hdeclared, rfl, .nil, ⟨[], rfl, fun p => Iff.rfl⟩, rfl⟩
  · refine ⟨matchesName_iff.mpr (by decide), ?_⟩
    exact List.forall_mem_singleton.mpr (matchesName_iff.mpr (by decide))
  · exact .inr ⟨_, quietShape_selectionSet⟩

theorem quietCall_synthesize : quietCall.synthesize noTypes ⟨"q", false⟩ = .ok
    "\x7b\"q\":\"query\x7bfind(b: 18446744073709552000.0) \x7btags\x7d\x7d\"\x7d" := by
  have hnames : quietCall.checkNames = .ok () := by decide +kernel
  have hselection : quietCall.selectionText noTypes = .ok "\x7btags\x7d" := by
    show (quietShape.selectionSet noTypes).mapError CallError.selection = _
    rw [quietShape_selectionSet]
    rfl
  have harguments : Variable.encodeAll quietCall.arguments = .ok "(b: 18446744073709552000.0)" := by
    decide +kernel
  rw [OperationCall.synthesize, OperationCall.document, hnames, hselection, harguments]
  decide +kernel

/-- The call is written under the settings of the file; without a descriptor nothing is. -/
theorem run_synthesize_quietWorld :
    (∃ i, Invocation.read (quietWords "shape") = .ok i ∧
      i.task = .synthesize (quietArguments "shape")) ∧
    (run quietWorld (quietWords "shape")).exitCode = 0 ∧
    (run quietWorld (quietWords "shape")).output =
      some "\x7b\"q\":\"query\x7bfind(b: 18446744073709552000.0) \x7btags\x7d\x7d\"\x7d" ∧
    (run quietWorld (quietWords "missing")).output = none ∧
    (run quietWorld (quietWords "missing")).exitCode = 1 := by
  have hread (shape : String) (h : shape = "shape" ∨ shape = "missing") :
      Invocation.read (quietWords shape) =
        .ok ⟨some "settings", false, .synthesize (quietArguments shape)⟩ := by
    rcases h with rfl | rfl <;> decide +kernel
  have hmissing : ¬ ∃ c, quietWorld.Asks (quietArguments "missing") c := by
    rintro ⟨c, hc⟩
    obtain ⟨j, ⟨octets, hcontent, -⟩, -⟩ := hc.result
    cases hcontent
  obtain ⟨hsucceeds, hprints, -, -, -⟩ :=
    run_synthesize (hread "shape" (.inl rfl)) rfl quietWorld_configures
  obtain ⟨text, htext, houtput⟩ := hprints quietCall quietWorld_asks
  obtain ⟨-, -, hfails, -, -⟩ :=
    run_synthesize (hread "missing" (.inr rfl)) rfl quietWorld_configures
  refine ⟨⟨_, hread "shape" (.inl rfl), rfl⟩, hsucceeds.mpr ⟨quietCall, quietWorld_asks⟩, ?_,
    hfails hmissing⟩
  rw [houtput, ← Except.ok.inj (htext.symm.trans quietCall_synthesize)]

end GraphQLCall.Command
