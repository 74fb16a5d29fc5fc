import GraphQLCall.Proofs.Call.Floats
import GraphQLCall.Proofs.Call.Order
import GraphQLCall.Proofs.Call.Reading

/-!
# Calls: the arguments that a call holds

A call starts without arguments and is asked for one after another, some of which it refuses; it then
stays as it was.  In between it may be given selection sets.

* `Request`   what a call is asked for
* `OperationCall.handle`, `OperationCall.handleAll`   a call after a request, and after many
* `Variable.firsts`   variables without those whose name an earlier one has
* `OperationCall.add_eq_ok_iff`, `OperationCall.add_eq_error_iff`   when an argument is refused
* `ArgumentTable`, `argumentTable`   the arguments as a table under their names
* `OperationCall.arguments_handleAll`, `argumentTable_eq`   what a call holds after requests
* `OperationCall.IsDocument`, `OperationCall.isDocument_of_document`   a text as the document of a call
* `OperationCall.handleAll_holds`   a call holds the first argument of each name, and no document has
                                    two arguments of one name
-/

namespace GraphQLCall

/-- **What a call is asked for:** to hold one more argument, or to take a selection set. -/
inductive Request where
  | argument (v : Variable)
  | selection (text : String)

namespace Request

def argument? : Request → Option Variable
  | .argument v => some v
  | .selection _ => none

def selection? : Request → Option String
  | .argument _ => none
  | .selection text => some text

end Request

/-! ### the first of each name -/

namespace Variable

/-- **Variables without those whose name an earlier one has,** in their order. -/
def firsts (vs : List Variable) : List Variable :=
  (vs.zipIdx.filter fun v => v.1.argumentName ∉ (vs.take v.2).map (·.argumentName)).map Prod.fst

theorem firsts_concat (vs : List Variable) (v : Variable) : firsts (vs ++ [v]) =
    firsts vs ++ if v.argumentName ∈ vs.map (·.argumentName) then [] else [v] := by
  have hearlier : ∀ u ∈ vs.zipIdx, (vs ++ [v]).take u.2 = vs.take u.2 := by
    rintro ⟨u, i⟩ hu
    exact List.take_append_of_le_length (Nat.le_of_lt (List.snd_lt_of_mem_zipIdx hu))
  have hfront : vs.zipIdx.filter (fun u =>
        u.1.argumentName ∉ ((vs ++ [v]).take u.2).map (·.argumentName)) =
      vs.zipIdx.filter fun u => u.1.argumentName ∉ (vs.take u.2).map (·.argumentName) := by
    refine List.filter_congr fun u hu => ?_
    rw [hearlier u hu]
  unfold firsts
  rw [List.zipIdx_append, List.filter_append, List.map_append, hfront]
  by_cases hname : v.argumentName ∈ vs.map (·.argumentName) <;> simp [hname]

/-- the first of each name has the names of all -/
theorem mem_names_firsts {name : String} {vs : List Variable} :
    name ∈ (firsts vs).map (·.argumentName) ↔ name ∈ vs.map (·.argumentName) := by
  induction vs using List.reverseRecOn with
  | nil => exact Iff.rfl
  | append_singleton vs v ih =>
    rw [firsts_concat, List.map_append, List.map_append, List.mem_append, List.mem_append, ih]
    split
    · rename_i hname
      simp only [List.map_nil, List.not_mem_nil, or_false, List.map_cons, List.mem_singleton]
      exact ⟨.inl, fun h => h.elim id fun heq => heq ▸ hname⟩
    · exact Iff.rfl

theorem nodup_names_firsts (vs : List Variable) :
    ((firsts vs).map (·.argumentName)).Nodup := by
  induction vs using List.reverseRecOn with
  | nil => exact .nil
  | append_singleton vs v ih =>
    rw [firsts_concat, List.map_append]
    split
    · rwa [List.map_nil, List.append_nil]
    · rename_i hname
      rw [List.map_cons, List.map_nil, ← List.concat_eq_append]
      exact ih.concat (mt mem_names_firsts.mp hname)

end Variable

namespace OperationCall

variable {c c' : OperationCall} {v : Variable} {e : CallError}

/-! ### one argument -/

theorem add_eq_ok_iff : c.add v = .ok c' ↔
    v.argumentName ∉ c.argumentNames ∧ c' = { c with arguments := c.arguments ++ [v] } := by
  unfold add
  split
  · rename_i htaken
    simp [htaken]
  · rename_i hfree
    simp [hfree, eq_comm]

/-- **An argument is refused** just if its name is taken. -/
theorem add_eq_error_iff : c.add v = .error e ↔
    v.argumentName ∈ c.argumentNames ∧ e = .duplicateArgument v.argumentName := by
  unfold add
  split
  · rename_i htaken
    simp [htaken, eq_comm]
  · rename_i hfree
    simp [hfree]

/-! ### one request after another -/

/-- a call after a request; where it refuses an argument it stays as it is -/
def handle (c : OperationCall) : Request → OperationCall
  | .argument v =>
    match c.add v with
    | .ok c' => c'
    | .error _ => c
  | .selection text => c.select text

/-- **A call after requests,** one after the other. -/
def handleAll (c : OperationCall) (requests : List Request) : OperationCall :=
  requests.foldl handle c

theorem handleAll_concat (c : OperationCall) (requests : List Request) (r : Request) :
    c.handleAll (requests ++ [r]) = (c.handleAll requests).handle r :=
  List.foldl_append

/-- **A request for an argument** adds it behind the others, or changes nothing. -/
theorem handle_argument (c : OperationCall) (v : Variable) : c.handle (.argument v) =
    { c with arguments := c.arguments ++ if v.argumentName ∈ c.argumentNames then [] else [v] } := by
  by_cases htaken : v.argumentName ∈ c.argumentNames
  · rw [handle, add_eq_error_iff.mpr ⟨htaken, rfl⟩, if_pos htaken, List.append_nil]
  · rw [handle, add_eq_ok_iff.mpr ⟨htaken, rfl⟩, if_neg htaken]

/-- what no request changes -/
theorem handle_same (c : OperationCall) (r : Request) : (c.handle r).kind = c.kind ∧
    (c.handle r).name = c.name ∧ (c.handle r).result = c.result := by
  cases r with
  | argument v =>
    rw [handle_argument]
    exact ⟨rfl, rfl, rfl⟩
  | selection text => exact ⟨rfl, rfl, rfl⟩

theorem handleAll_same (c : OperationCall) (requests : List Request) :
    (c.handleAll requests).kind = c.kind ∧ (c.handleAll requests).name = c.name ∧
      (c.handleAll requests).result = c.result := by
  induction requests using List.reverseRecOn with
  | nil => exact ⟨rfl, rfl, rfl⟩
  | append_singleton requests r ih =>
    obtain ⟨hkind, hname, hresult⟩ := handle_same (c.handleAll requests) r
    rw [handleAll_concat, hkind, hname, hresult]
    exact ih

section
variable (kind : OperationKind) (name : String) (result : Shape) (requests : List Request)

theorem selectionOverride_handleAll :
    ((ofResult kind name result).handleAll requests).selectionOverride =
      (requests.filterMap Request.selection?).getLast? := by
  induction requests using List.reverseRecOn with
  | nil => rfl
  | append_singleton requests r ih =>
    rw [handleAll_concat, List.filterMap_append]
    cases r with
    | argument v =>
      rw [handle_argument, ih]
      exact congrArg List.getLast? (List.append_nil _).symm
    | selection text => exact List.getLast?_concat.symm

/-- **A call holds the first argument of each name** that it was asked for. -/
theorem arguments_handleAll : ((ofResult kind name result).handleAll requests).arguments =
    Variable.firsts (requests.filterMap Request.argument?) := by
  induction requests using List.reverseRecOn with
  | nil => rfl
  | append_singleton requests r ih =>
    rw [handleAll_concat, List.filterMap_append]
    cases r with
    | argument v =>
      have htried : [Request.argument v].filterMap Request.argument? = [v] := rfl
      rw [handle_argument, htried, Variable.firsts_concat, argumentNames, ih]
      simp only [Variable.mem_names_firsts]
    | selection text =>
      have htried : [Request.selection text].filterMap Request.argument? = [] := rfl
      rw [htried, List.append_nil]
      exact ih

theorem mem_argumentNames_handleAll {n : String} :
    n ∈ ((ofResult kind name result).handleAll requests).argumentNames ↔
      n ∈ (requests.filterMap Request.argument?).map (·.argumentName) := by
  rw [argumentNames, arguments_handleAll, Variable.mem_names_firsts]

theorem nodup_argumentNames_handleAll :
    ((ofResult kind name result).handleAll requests).argumentNames.Nodup := by
  rw [argumentNames, arguments_handleAll]
  exact Variable.nodup_names_firsts _

end

end OperationCall

/-! ### the arguments as a table -/

/-- **Arguments under their names,** in the order in which the names were bound first. -/
abbrev ArgumentTable := List (String × Variable)

namespace ArgumentTable

/-- a name bound to an argument: anew if it is bound, and else behind all others -/
def bind (name : String) (v : Variable) : ArgumentTable → ArgumentTable
  | [] => [(name, v)]
  | (n, u) :: rest => if n = name then (n, v) :: rest else (n, u) :: bind name v rest

/-- a table after a request for an argument: its name is the other name that it is given, or else its
own, and stays as it is bound -/
def handle (t : ArgumentTable) : Request → ArgumentTable
  | .argument v =>
    let name := match v.markers.otherName with
      | some other => other
      | none => v.name
    if name ∈ t.map Prod.fst then t else bind name v t
  | .selection _ => t

theorem bind_of_not_mem {name : String} {v : Variable} {t : ArgumentTable}
    (h : name ∉ t.map Prod.fst) : bind name v t = t ++ [(name, v)] := by
  induction t with
  | nil => rfl
  | cons entry rest ih =>
    obtain ⟨n, u⟩ := entry
    rw [List.map_cons, List.mem_cons, not_or] at h
    rw [bind, if_neg (Ne.symm h.1), ih h.2, List.cons_append]

end ArgumentTable

/-- **The table of arguments after requests.** -/
def argumentTable (requests : List Request) : ArgumentTable :=
  requests.foldl ArgumentTable.handle []

namespace OperationCall

/-- **A call holds what a table has,** each argument under its own name. -/
theorem argumentTable_eq (kind : OperationKind) (name : String) (result : Shape)
    (requests : List Request) : argumentTable requests =
      ((ofResult kind name result).handleAll requests).arguments.map
        fun v => (v.argumentName, v) := by
  induction requests using List.reverseRecOn with
  | nil => rfl
  | append_singleton requests r ih =>
    have hstep : argumentTable (requests ++ [r]) = (argumentTable requests).handle r :=
      List.foldl_append
    rw [hstep, handleAll_concat, ih]
    cases r with
    | argument v =>
      have hkey : (match v.markers.otherName with
          | some other => other
          | none => v.name) = v.argumentName := by
        unfold Variable.argumentName
        cases v.markers.otherName <;> rfl
      have hnames : (((ofResult kind name result).handleAll requests).arguments.map
          fun v => (v.argumentName, v)).map Prod.fst =
          ((ofResult kind name result).handleAll requests).argumentNames := List.map_map
      rw [handle_argument, ArgumentTable.handle, hkey, hnames]
      split
      · rw [List.append_nil]
      · rename_i hfree
        rw [ArgumentTable.bind_of_not_mem (hnames ▸ hfree), List.map_append]
        rfl
    | selection text => rfl

/-! ### documents -/

variable {cat : Catalogue} {c : OperationCall} {text : String}

/-- **The arguments that are not null,** in their order. -/
def shown (c : OperationCall) : List Variable := c.arguments.filter fun v => !v.value.isNull

/-- **The names that the arguments of a document stand under.** -/
def writtenNames (c : OperationCall) : List String := c.shown.map (·.argumentName)

/-- **A text as the document of a call,** with its selection set, and with the arguments that are not
null, each one as its name and the literal of what is left of its value. -/
def IsDocument (cat : Catalogue) (c : OperationCall) (text : String) : Prop :=
  ∃ selection, c.selectionText cat = .ok selection ∧
    text = c.kind.keyword ++ "\x7b" ++ c.name ++ Variable.parenthesize (c.shown.map fun v =>
      v.argumentName ++ ": " ++ (v.value.prune v.markers .root).literal v.markers.raw) ++ " " ++
      selection ++ "\x7d"

theorem writtenNames_sublist (c : OperationCall) : c.writtenNames.Sublist c.argumentNames :=
  List.filter_sublist.map _

theorem names_written (c : OperationCall) : c.written.map Prod.fst = c.writtenNames := by
  unfold written writtenNames shown
  induction c.arguments with
  | nil => rfl
  | cons v rest ih =>
    cases hnull : v.value.isNull with
    | true =>
      have hwritten : v.written? = none := if_pos hnull
      rw [List.filterMap_cons, hwritten, List.filter_cons, hnull]
      exact ih
    | false =>
      have hwritten : v.written? = some (v.argumentName, v.value.prune v.markers .root) :=
        if_neg (Bool.eq_false_iff.mp hnull)
      rw [List.filterMap_cons, hwritten, List.filter_cons, hnull]
      exact congrArg _ ih

/-- the arguments that are written are names with literals -/
theorem texts_eq {vs : List Variable} {texts : List String}
    (h : List.Forall₂ (fun v text => v.encode = .ok (some text)) vs texts) :
    texts = vs.map fun v =>
      v.argumentName ++ ": " ++ (v.value.prune v.markers .root).literal v.markers.raw := by
  induction h with
  | nil => rfl
  | @cons v text vs texts hv _ ih =>
    rcases Variable.encode_cases hv with ⟨⟨⟩, -⟩ | ⟨l, hl, heq, -⟩
    cases heq
    rw [List.map_cons, ih, Literal.ofValue_eq_literal hl]

/-- **A document has the arguments that are not null,** in their order. -/
theorem isDocument_of_document (h : c.document cat = .ok text) : c.IsDocument cat text := by
  unfold document at h
  split at h
  · cases h
  split at h
  · cases h
  rename_i selection hselection
  split at h
  · cases h
  rename_i arguments harguments
  cases h
  obtain ⟨texts, htexts, rfl⟩ := Outcome.map_eq_ok_iff.mp harguments
  obtain rfl := texts_eq (Variable.encodeEach_eq_ok_iff.mp htexts)
  exact ⟨selection, hselection, rfl⟩

/-- **A call holds each argument once, as it first came.**  After any requests it is the call that it
was, with the last selection set that it was given and the first argument of each name that it was
asked for, in their order and under their own names, which are all different; it refuses just the
arguments whose names it has been asked for before.  So no document has two arguments of one name,
neither as it is written nor as it is read back. -/
theorem handleAll_holds (kind : OperationKind) (name : String) (result : Shape)
    (requests : List Request) :
    let c := (ofResult kind name result).handleAll requests
    let tried := requests.filterMap Request.argument?
    (c.kind = kind ∧ c.name = name ∧ c.result = result ∧
      c.selectionOverride = (requests.filterMap Request.selection?).getLast?) ∧
    c.arguments = Variable.firsts tried ∧ c.argumentNames.Nodup ∧
    argumentTable requests = c.arguments.map (fun v => (v.argumentName, v)) ∧
    (∀ v e, c.add v = .error e ↔
      v.argumentName ∈ c.argumentNames ∧ e = .duplicateArgument v.argumentName) ∧
    (∀ n, n ∈ c.argumentNames ↔ n ∈ tried.map (·.argumentName)) ∧
    ∀ cat text, c.document cat = .ok text →
      c.IsDocument cat text ∧ c.writtenNames.Nodup ∧
      (c.Plain → (∀ v ∈ c.arguments, v.value.Named) → c.result.NamesAll (isName ·) cat →
        ∃ d, Document.read text = some d ∧ d.arguments.map Prod.fst = c.writtenNames) := by
  intro c tried
  obtain ⟨hkind, hname, hresult⟩ := handleAll_same (ofResult kind name result) requests
  have hnodup : c.argumentNames.Nodup := nodup_argumentNames_handleAll kind name result requests
  refine ⟨⟨hkind, hname, hresult, selectionOverride_handleAll kind name result requests⟩,
    arguments_handleAll kind name result requests, hnodup,
    argumentTable_eq kind name result requests, fun v e => add_eq_error_iff,
    fun n => mem_argumentNames_handleAll kind name result requests, ?_⟩
  intro cat text hdocument
  refine ⟨isDocument_of_document hdocument, hnodup.sublist c.writtenNames_sublist, ?_⟩
  intro plain keys fields
  obtain ⟨tree, -, hderives, -⟩ := derives_of_document plain keys fields hdocument
  exact ⟨_, Document.read_of_derives hderives, c.names_written⟩

/-- requests for four arguments, the second under the name of the first, with selection sets between -/
def hopRequests : List Request :=
  [.argument (.plain "beer" (.int 1) (.scalar .any)), .selection "\x7bname\x7d",
    .argument ⟨"hop", .int 2, .scalar .any, ⟨some "beer", [], false⟩⟩,
    .argument (.plain "hop" .null (.scalar .any)), .selection "\x7bid\x7d",
    .argument ⟨"beer", .int 3, .scalar .any, ⟨some "hops", [], false⟩⟩]

/-- the same without selection sets -/
def hopArguments : List Request := hopRequests.filter fun r => r.argument?.isSome

theorem hopRequests_holds :
    let start := ofResult .query "find" (.object none [("id", .scalar .id)])
    (start.handleAll hopRequests).selectionOverride = some "\x7bid\x7d" ∧
    (start.handleAll hopRequests).argumentNames = ["beer", "hop", "hops"] ∧
    (start.handleAll hopArguments).document [] =
      .ok "query\x7bfind(beer: 1, hops: 3) \x7bid\x7d\x7d" ∧
    ∃ d, Document.read "query\x7bfind(beer: 1, hops: 3) \x7bid\x7d\x7d" = some d ∧
      d.arguments.map Prod.fst = ["beer", "hops"] := by
  intro start
  have hheld : (start.handleAll hopArguments).arguments =
      [.plain "beer" (.int 1) (.scalar .any), .plain "hop" .null (.scalar .any),
        ⟨"beer", .int 3, .scalar .any, ⟨some "hops", [], false⟩⟩] := by rfl
  have hdocument : (start.handleAll hopArguments).document [] =
      .ok "query\x7bfind(beer: 1, hops: 3) \x7bid\x7d\x7d" := by cbv
  have plain : (start.handleAll hopArguments).Plain :=
    ⟨rfl, by simp [hheld, Variable.plain, Markers.default]⟩
  have keys : ∀ v ∈ (start.handleAll hopArguments).arguments, v.value.Named := by
    simp [hheld, Variable.plain, Value.Named]
  have fields : (start.handleAll hopArguments).result.NamesAll (isName ·) [] :=
    namesAll_of_shape ⟨by decide, trivial, trivial⟩
  obtain ⟨⟨-, -, -, hselection⟩, -⟩ := handleAll_holds .query "find"
    (.object none [("id", .scalar .id)]) hopRequests
  obtain ⟨-, -, -, -, -, -, hdocuments⟩ := handleAll_holds .query "find"
    (.object none [("id", .scalar .id)]) hopArguments
  obtain ⟨-, -, hread⟩ := hdocuments [] _ hdocument
  exact ⟨hselection, rfl, hdocument, hread plain keys fields⟩

end OperationCall

end GraphQLCall
