import GraphQLCall.Call.Document
import GraphQLCall.Proofs.Call.NonFinite

/-!
# Calls: why a call is not written

A call is written in stages: the name of the operation is looked at, then the names of the arguments
in their order, then the selection set, then the numbers of the arguments.  It fails with the first
stage that fails, and for nothing else.

* `MatchesName`, `matchesName_iff`   the texts that are names
* `OperationCall.Named`, `OperationCall.Selects`   the names of a call and its selection set
* `OperationCall.FirstFailure`   the failures of the stages, each where no stage before it fails
* `OperationCall.checkNames_eq_ok_iff`, `OperationCall.checkNames_eq_error_iff`   the names
* `OperationCall.selectionText_eq_ok_iff`, `OperationCall.selectionText_eq_error_iff`   the selection
  set
* `OperationCall.document_outcome`   when a call is written, and why it is not
-/

namespace GraphQLCall

/-! ### names -/

def MatchesNameStart (c : Char) : Prop := c = '_' ∨ ('A' ≤ c ∧ c ≤ 'Z') ∨ ('a' ≤ c ∧ c ≤ 'z')

def MatchesNameRest (c : Char) : Prop := MatchesNameStart c ∨ ('0' ≤ c ∧ c ≤ '9')

/-- **The texts that are names:** a letter of ASCII or a low line, and any number of these and of
digits behind it. -/
def MatchesName (s : String) : Prop :=
  ∃ first rest, s.toList = first :: rest ∧ MatchesNameStart first ∧ ∀ c ∈ rest, MatchesNameRest c

theorem matchesNameStart_iff {c : Char} : MatchesNameStart c ↔ isNameStart c = true := by
  have hupper : c.isUpper = true ↔ 'A' ≤ c ∧ c ≤ 'Z' := by
    show decide ('A' ≤ c ∧ c ≤ 'Z') = true ↔ _
    exact decide_eq_true_iff
  have hlower : c.isLower = true ↔ 'a' ≤ c ∧ c ≤ 'z' := by
    show (decide ('a' ≤ c) && decide (c ≤ 'z')) = true ↔ _
    simp
  have halpha : c.isAlpha = (c.isUpper || c.isLower) := rfl
  simp [MatchesNameStart, isNameStart, halpha, hupper, hlower]

theorem matchesNameRest_iff {c : Char} : MatchesNameRest c ↔ isNameRest c = true := by
  have hdigit : c.isDigit = true ↔ '0' ≤ c ∧ c ≤ '9' := by
    simp [Char.isDigit, Char.le_def]
  simp [MatchesNameRest, matchesNameStart_iff, isNameStart, isNameRest, Char.isAlphanum, hdigit,
    or_assoc]

theorem matchesName_iff {s : String} : MatchesName s ↔ isName s = true := by
  unfold MatchesName isName
  cases s.toList with
  | nil => simp
  | cons first rest => simp [matchesNameStart_iff, matchesNameRest_iff]

namespace OperationCall

/-- **All names of a call are names,** those of arguments that are not written too. -/
structure Named (c : OperationCall) : Prop where
  operation : MatchesName c.name
  arguments : ∀ v ∈ c.arguments, MatchesName v.argumentName

/-- **A call has a selection set:** the caller's, or the one of its result's shape. -/
def Selects (cat : Catalogue) (c : OperationCall) : Prop :=
  c.selectionOverride ≠ none ∨ ∃ text, c.result.selectionSet cat = .ok text

/-- **Why a call is not written:** the failures of the stages, each where no stage before it fails,
and of an argument where none before it fails in the same stage. -/
inductive FirstFailure (cat : Catalogue) (c : OperationCall) : CallError → Prop
  | operationName : ¬ MatchesName c.name → FirstFailure cat c (.invalidName .operation c.name)
  | argumentName {before after : List Variable} {v : Variable} : MatchesName c.name →
      c.arguments = before ++ v :: after → (∀ u ∈ before, MatchesName u.argumentName) →
      ¬ MatchesName v.argumentName → FirstFailure cat c (.invalidName .argument v.argumentName)
  | selection {e : SelectionError} : c.Named → c.selectionOverride = none →
      c.result.selectionSet cat = .error e → FirstFailure cat c (.selection e)
  | number {before after : List Variable} {v : Variable} {p : FieldPath} : c.Named →
      c.Selects cat → c.arguments = before ++ v :: after → (∀ u ∈ before, u.Finite) →
      (v.value.nonFinite v.markers .root).head? = some p →
      FirstFailure cat c (.nonFinite ⟨v.argumentName, p⟩)

variable {cat : Catalogue} {c : OperationCall} {e : CallError}

/-! ### the stages -/

theorem checkName_eq_ok_iff {role : NameRole} {name : String} :
    checkName role name = .ok () ↔ MatchesName name := by
  rw [matchesName_iff]
  unfold checkName
  split
  · rename_i h
    simp [h]
  · rename_i h
    simp [h]

theorem checkName_eq_error_iff {role : NameRole} {name : String} :
    checkName role name = .error e ↔ ¬ MatchesName name ∧ e = .invalidName role name := by
  rw [matchesName_iff]
  unfold checkName
  split
  · rename_i h
    simp [h]
  · rename_i h
    simp [h, eq_comm]

theorem checkNames_eq_ok_iff : c.checkNames = .ok () ↔ c.Named := by
  have harguments : Outcome.all (checkName .argument) c.argumentNames = .ok () ↔
      ∀ v ∈ c.arguments, MatchesName v.argumentName := by
    rw [Outcome.all_eq_ok_iff, argumentNames, List.forall_mem_map]
    exact forall₂_congr fun v _ => checkName_eq_ok_iff
  unfold checkNames
  split
  · rename_i e he
    obtain ⟨hname, -⟩ := checkName_eq_error_iff.mp he
    exact ⟨nofun, fun h => absurd h.operation hname⟩
  · rename_i hok
    rw [harguments]
    exact ⟨fun h => ⟨checkName_eq_ok_iff.mp hok, h⟩, Named.arguments⟩

theorem checkNames_eq_error_iff : c.checkNames = .error e ↔
    ¬ MatchesName c.name ∧ e = .invalidName .operation c.name ∨
    MatchesName c.name ∧ ∃ before v after, c.arguments = before ++ v :: after ∧
      (∀ u ∈ before, MatchesName u.argumentName) ∧ ¬ MatchesName v.argumentName ∧
        e = .invalidName .argument v.argumentName := by
  unfold checkNames
  split
  · rename_i e' he
    obtain ⟨hname, rfl⟩ := checkName_eq_error_iff.mp he
    simp [hname, eq_comm]
  · rename_i hok
    have hname : MatchesName c.name := checkName_eq_ok_iff.mp hok
    rw [Outcome.all_eq_error_iff]
    simp only [hname, not_true_eq_false, false_and, true_and, false_or]
    constructor
    · rintro ⟨before, name, after, hsplit, hbefore, hfail⟩
      obtain ⟨us, vs, hcall, rfl, hvs⟩ := List.map_eq_append_iff.mp hsplit
      obtain ⟨v, vs, rfl, rfl, rfl⟩ := List.map_eq_cons_iff.mp hvs
      obtain ⟨hv, rfl⟩ := checkName_eq_error_iff.mp hfail
      refine ⟨us, v, vs, hcall, fun u hu => ?_, hv, rfl⟩
      exact checkName_eq_ok_iff.mp (hbefore _ (List.mem_map_of_mem hu))
    · rintro ⟨before, v, after, hcall, hbefore, hv, rfl⟩
      refine ⟨before.map (·.argumentName), v.argumentName, after.map (·.argumentName), ?_, ?_, ?_⟩
      · rw [argumentNames, hcall, List.map_append, List.map_cons]
      · exact List.forall_mem_map.mpr fun u hu => checkName_eq_ok_iff.mpr (hbefore u hu)
      · exact checkName_eq_error_iff.mpr ⟨hv, rfl⟩

theorem selectionText_eq_ok_iff : (∃ text, c.selectionText cat = .ok text) ↔ c.Selects cat := by
  unfold selectionText Selects
  cases c.selectionOverride with
  | some text => simp
  | none => cases c.result.selectionSet cat <;> simp [Except.mapError]

theorem selectionText_eq_error_iff : c.selectionText cat = .error e ↔
    c.selectionOverride = none ∧ ∃ e', c.result.selectionSet cat = .error e' ∧ e = .selection e' := by
  unfold selectionText
  cases c.selectionOverride with
  | some text => simp
  | none => cases c.result.selectionSet cat <;> simp [Except.mapError, eq_comm]

/-! ### all stages -/

theorem document_eq_ok_iff : (∃ text, c.document cat = .ok text) ↔
    c.Named ∧ c.Selects cat ∧ ∀ v ∈ c.arguments, v.Finite := by
  rw [← checkNames_eq_ok_iff, ← selectionText_eq_ok_iff, ← Variable.encodeAll_eq_ok_iff]
  unfold document
  cases c.checkNames with
  | error e => simp
  | ok u =>
    cases c.selectionText cat with
    | error e => simp
    | ok selection => cases Variable.encodeAll c.arguments <;> simp

theorem document_eq_error_iff : c.document cat = .error e ↔
    c.checkNames = .error e ∨ c.Named ∧ (c.selectionText cat = .error e ∨
      c.Selects cat ∧ ∃ place, Variable.encodeAll c.arguments = .error place ∧
        e = .nonFinite place) := by
  rw [← checkNames_eq_ok_iff, ← selectionText_eq_ok_iff]
  unfold document
  cases c.checkNames with
  | error e => simp
  | ok u =>
    cases c.selectionText cat with
    | error e => simp
    | ok selection => cases Variable.encodeAll c.arguments <;> simp [eq_comm]

theorem document_eq_error_iff_firstFailure :
    c.document cat = .error e ↔ c.FirstFailure cat e := by
  rw [document_eq_error_iff, checkNames_eq_error_iff, selectionText_eq_error_iff]
  constructor
  · rintro ((⟨hname, rfl⟩ | ⟨hname, before, v, after, hcall, hbefore, hv, rfl⟩) |
      ⟨hnamed, ⟨hnone, e', he', rfl⟩ | ⟨hselects, place, hplace, rfl⟩⟩)
    · exact .operationName hname
    · exact .argumentName hname hcall hbefore hv
    · exact .selection hnamed hnone he'
    · obtain ⟨before, v, after, p, hcall, hbefore, hp, rfl⟩ :=
        Variable.encodeAll_eq_error_iff.mp hplace
      exact .number hnamed hselects hcall hbefore hp
  · intro h
    cases h with
    | operationName hname => exact .inl (.inl ⟨hname, rfl⟩)
    | argumentName hname hcall hbefore hv =>
      exact .inl (.inr ⟨hname, _, _, _, hcall, hbefore, hv, rfl⟩)
    | selection hnamed hnone he => exact .inr ⟨hnamed, .inl ⟨hnone, _, he, rfl⟩⟩
    | number hnamed hselects hcall hbefore hp =>
      exact .inr ⟨hnamed, .inr ⟨hselects, _,
        Variable.encodeAll_eq_error_iff.mpr ⟨_, _, _, _, hcall, hbefore, hp, rfl⟩, rfl⟩⟩

/-- **A call is written** just if all its names are names, it has a selection set, and all numbers
that are written of its arguments are finite.  Else it fails with the first stage that fails.  Where
the selection set is the caller's, the shape of the result is not looked at. -/
theorem document_outcome (cat : Catalogue) (c : OperationCall) :
    ((∃ text, c.document cat = .ok text) ↔
      c.Named ∧ c.Selects cat ∧ ∀ v ∈ c.arguments, v.Finite) ∧
    (∀ e, c.document cat = .error e ↔ c.FirstFailure cat e) ∧
    ∀ (cat' : Catalogue) (result : Shape), c.selectionOverride ≠ none →
      { c with result := result }.document cat' = c.document cat := by
  refine ⟨document_eq_ok_iff, fun e => document_eq_error_iff_firstFailure, ?_⟩
  intro cat' result hoverride
  obtain ⟨text, htext⟩ := Option.ne_none_iff_exists'.mp hoverride
  simp only [document, checkNames, argumentNames, selectionText, htext]

/-- an argument that is null under a name that is none, and one with an infinite number in front of
the infinite number of an ignored field -/
def endlessCall (name : String) : OperationCall :=
  ⟨.query, "find", .scalar .any, some "\x7bid\x7d",
    [⟨"none", .null, .scalar .any, ⟨some name, [], false⟩⟩,
      ⟨"range", .object [("least", .list [.int 0, .float ⟨true, 0x7FF0000000000000⟩]),
        ("most", .float ⟨false, 0x7FF0000000000000⟩)], .scalar .any, ⟨none, ["most"], false⟩⟩]⟩

theorem endlessCall_outcome :
    (endlessCall "1st").document [] = .error (.invalidName .argument "1st") ∧
    (endlessCall "1st").FirstFailure [] (.invalidName .argument "1st") ∧
    (endlessCall "first").document [] = .error (.nonFinite ⟨"range", ⟨"least"⟩⟩) ∧
    (endlessCall "first").FirstFailure [] (.nonFinite ⟨"range", ⟨"least"⟩⟩) ∧
    { endlessCall "first" with result := .object none [] }.document []
      = .error (.nonFinite ⟨"range", ⟨"least"⟩⟩) := by
  have hfirst : (endlessCall "1st").document [] = .error (.invalidName .argument "1st") := by
    decide +kernel
  have hnumber : (endlessCall "first").document [] = .error (.nonFinite ⟨"range", ⟨"least"⟩⟩) := by
    decide +kernel
  have hall := document_outcome [] (endlessCall "first")
  refine ⟨hfirst, ((document_outcome [] (endlessCall "1st")).2.1 _).mp hfirst, hnumber,
    (hall.2.1 _).mp hnumber, ?_⟩
  exact (hall.2.2 [] (.object none []) (Option.some_ne_none _)).trans hnumber

end OperationCall

end GraphQLCall
