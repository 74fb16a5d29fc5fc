import GraphQLCall.Proofs.Call.Written
import GraphQLCall.Proofs.Entries
import GraphQLCall.Proofs.Selection.Order

/-!
# Calls: the order in which entries and fields are given

An object puts its entries in order when it is made, so an argument does not show in which order they
were given; and neither do the selection set and the check of data show it of the fields of a shape.

* `Value.Rearranged`, `Value.Rearranged.eq`   values that differ in that order alone
* `Value.Made`   a value that is put together of its parts
* `Value.EachObject`   what holds of the names in each object of a value
* `Value.literal`   the literal of a value of which nothing is left out
* `Literal.ofValue_eq_literal`   the literal of a value is that of what is left of it
* `order_unobserved`   the order in which entries and fields are given is not observed
-/

namespace GraphQLCall

namespace Value

/-! ### what is given in another order -/

/-- **Values that differ in the order in which entries are given:** those of one object, all with
different names, or those of an object that stands somewhere inside. -/
inductive Rearranged : Value → Value → Prop
  | same (v : Value) : Rearranged v v
  | permuted {entries entries' : List (String × Value)} :
      (entries.map Prod.fst).Nodup → entries.Perm entries' →
      Rearranged (.ofEntries entries) (.ofEntries entries')
  | item {before after : List Value} {v v' : Value} : Rearranged v v' →
      Rearranged (.list (before ++ v :: after)) (.list (before ++ v' :: after))
  | entry {before after : List (String × Value)} {name : String} {v v' : Value} : Rearranged v v' →
      Rearranged (.ofEntries (before ++ (name, v) :: after))
        (.ofEntries (before ++ (name, v') :: after))
  | trans {u v w : Value} : Rearranged u v → Rearranged v w → Rearranged u w

/-- **Values whose entries are given in another order** are the same. -/
theorem Rearranged.eq {v v' : Value} (h : v.Rearranged v') : v = v' := by
  induction h with
  | same v => rfl
  | permuted hnodup hperm => rw [ofEntries, ofEntries, Entries.ofList_congr hnodup hperm]
  | item _ ih => rw [ih]
  | entry _ ih => rw [ih]
  | trans _ _ ih ih' => exact ih.trans ih'

/-! ### the names in each object -/

/-- **A value that is put together of its parts,** its objects of lists of entries. -/
inductive Made : Value → Prop
  | null : Made .null
  | bool (b : Bool) : Made (.bool b)
  | int (n : Int) : Made (.int n)
  | float (x : Number.Double) : Made (.float x)
  | str (s : String) : Made (.str s)
  | list {items : List Value} : (∀ v ∈ items, Made v) → Made (.list items)
  | object {entries : List (String × Value)} : (∀ e ∈ entries, Made e.2) →
      Made (.ofEntries entries)

mutual

/-- **What holds of the names in each object** of a value. -/
def EachObject (P : List String → Prop) : Value → Prop
  | .list items => EachOfItems P items
  | .object entries => P (entries.map Prod.fst) ∧ EachOfEntries P entries
  | _ => True

def EachOfItems (P : List String → Prop) : List Value → Prop
  | [] => True
  | v :: rest => v.EachObject P ∧ EachOfItems P rest

def EachOfEntries (P : List String → Prop) : List (String × Value) → Prop
  | [] => True
  | (_, v) :: rest => v.EachObject P ∧ EachOfEntries P rest

end

variable {P : List String → Prop}

theorem eachOfItems_iff {items : List Value} :
    EachOfItems P items ↔ ∀ v ∈ items, v.EachObject P := by
  induction items with
  | nil => simp [EachOfItems]
  | cons v rest ih => rw [EachOfItems, ih, List.forall_mem_cons]

theorem eachOfEntries_iff {entries : List (String × Value)} :
    EachOfEntries P entries ↔ ∀ e ∈ entries, e.2.EachObject P := by
  induction entries with
  | nil => simp [EachOfEntries]
  | cons entry rest ih =>
    obtain ⟨name, v⟩ := entry
    rw [EachOfEntries, ih, List.forall_mem_cons]

/-- **The names in each object** of a value that is put together stand in strictly ascending order of
their octets. -/
theorem Made.ascending {v : Value} (h : v.Made) : v.EachObject Utf8.Ascending := by
  induction h with
  | list _ ih => exact eachOfItems_iff.mpr ih
  | @object entries _ ih =>
    refine ⟨?_, eachOfEntries_iff.mpr fun e he => ih e (Entries.mem_of_mem_ofList he)⟩
    exact Utf8.ascending_iff.mpr (Entries.strict_ofList entries).names
  | _ => trivial

theorem sublist_pruneEntries (m : Markers) (path : FieldPath) (entries : List (String × Value)) :
    ((pruneEntries m path entries).map Prod.fst).Sublist (entries.map Prod.fst) := by
  induction entries with
  | nil => exact .slnil
  | cons entry rest ih =>
    obtain ⟨name, v⟩ := entry
    rw [pruneEntries]
    split
    · exact ih.cons name
    · exact ih.cons_cons name

section
variable {m : Markers}

mutual

/-- **What is left of a value** has in each object some of the names, in their order. -/
theorem EachObject.prune {v : Value} (path : FieldPath) (h : v.EachObject Utf8.Ascending) :
    (v.prune m path).EachObject Utf8.Ascending := by
  match v with
  | .list items => exact EachOfItems.prune path h
  | .object entries =>
    exact ⟨h.1.sublist (sublist_pruneEntries m path entries), EachOfEntries.prune path h.2⟩
  | .null | .bool _ | .int _ | .float _ | .str _ => trivial

theorem EachOfItems.prune {items : List Value} (path : FieldPath)
    (h : EachOfItems Utf8.Ascending items) :
    EachOfItems Utf8.Ascending (pruneItems m path items) := by
  match items with
  | [] => trivial
  | v :: rest => exact ⟨EachObject.prune path h.1, EachOfItems.prune path h.2⟩

theorem EachOfEntries.prune {entries : List (String × Value)} (path : FieldPath)
    (h : EachOfEntries Utf8.Ascending entries) :
    EachOfEntries Utf8.Ascending (pruneEntries m path entries) := by
  match entries with
  | [] => trivial
  | (name, v) :: rest =>
    rw [pruneEntries]
    split
    · exact EachOfEntries.prune path h.2
    · exact ⟨EachObject.prune _ h.1, EachOfEntries.prune path h.2⟩

end

end

/-! ### literals -/

mutual

/-- **The literal of a value of which nothing is left out.** -/
def literal (raw : Bool) : Value → String
  | .null => "null"
  | .bool true => "true"
  | .bool false => "false"
  | .int n => toString n
  | .float x => Number.Layout.literal.render x
  | .str s => if raw then s else Literal.quote s
  | .list items => "[" ++ Text.join ", " (itemLiterals raw items) ++ "]"
  | .object entries => "\x7b" ++ Text.join ", " (entryLiterals raw entries) ++ "\x7d"

def itemLiterals (raw : Bool) : List Value → List String
  | [] => []
  | v :: rest => v.literal raw :: itemLiterals raw rest

def entryLiterals (raw : Bool) : List (String × Value) → List String
  | [] => []
  | (name, v) :: rest => (name ++ ": " ++ v.literal raw) :: entryLiterals raw rest

end

end Value

namespace Literal

variable {m : Markers} {argument : String}

mutual

/-- **The literal of a value** is that of what is left of it. -/
theorem ofValue_eq_literal {v : Value} {path : FieldPath} {l : String}
    (h : ofValue m argument path v = .ok l) : l = (v.prune m path).literal m.raw := by
  match v with
  | .null =>
    cases h
    rfl
  | .bool true =>
    cases h
    rfl
  | .bool false =>
    cases h
    rfl
  | .int n =>
    cases h
    rfl
  | .float x =>
    rw [ofValue] at h
    split at h
    · rename_i s hs
      cases h
      unfold ofFloat? at hs
      split at hs
      · cases hs
        rfl
      · cases hs
    · cases h
  | .str s =>
    cases h
    rfl
  | .list items =>
    rw [ofValue] at h
    obtain ⟨ls, hls, rfl⟩ := Outcome.map_eq_ok_iff.mp h
    rw [ofItems_eq_literals hls]
    rfl
  | .object entries =>
    rw [ofValue] at h
    obtain ⟨ls, hls, rfl⟩ := Outcome.map_eq_ok_iff.mp h
    rw [ofFields_eq_literals hls]
    rfl

theorem ofItems_eq_literals {items : List Value} {path : FieldPath} {ls : List String}
    (h : ofItems m argument path items = .ok ls) :
    ls = Value.itemLiterals m.raw (Value.pruneItems m path items) := by
  match items with
  | [] =>
    cases h
    rfl
  | v :: rest =>
    rw [ofItems] at h
    split at h
    · cases h
    · rename_i l hl
      obtain ⟨ls, hls, rfl⟩ := Outcome.map_eq_ok_iff.mp h
      rw [Value.pruneItems, Value.itemLiterals, ofValue_eq_literal hl, ofItems_eq_literals hls]

theorem ofFields_eq_literals {entries : List (String × Value)} {path : FieldPath} {ls : List String}
    (h : ofFields m argument path entries = .ok ls) :
    ls = Value.entryLiterals m.raw (Value.pruneEntries m path entries) := by
  match entries with
  | [] =>
    cases h
    rfl
  | (name, v) :: rest =>
    rw [ofFields] at h
    rw [Value.pruneEntries]
    split at h
    · rename_i hskip
      rw [if_pos hskip]
      exact ofFields_eq_literals h
    · rename_i hkept
      rw [if_neg hkept]
      split at h
      · cases h
      · rename_i l hl
        obtain ⟨ls, hls, rfl⟩ := Outcome.map_eq_ok_iff.mp h
        rw [Value.entryLiterals, ofValue_eq_literal hl, ofFields_eq_literals hls]

end

end Literal

/-! ### what is written and checked -/

/-- **An argument is its name and the literal of what is left of its value,** in each object of which
the names stand in strictly ascending order of their octets. -/
theorem Variable.encode_ascending {v : Variable} {text : String} (hmade : v.value.Made)
    (h : v.encode = .ok (some text)) :
    text = v.argumentName ++ ": " ++ (v.value.prune v.markers .root).literal v.markers.raw ∧
      (v.value.prune v.markers .root).EachObject Utf8.Ascending := by
  rcases encode_cases h with ⟨hnone, -⟩ | ⟨l, hl, htext, -⟩
  · cases hnone
  · cases htext
    rw [Literal.ofValue_eq_literal hl]
    exact ⟨rfl, hmade.ascending.prune .root⟩

/-- **The order in which entries and fields are given is not observed.**  An argument is written the
same, or refused for the same number, whatever the order of entries with different names in any of
its objects, and the names in each object that is written ascend strictly by their octets.  A shape
has the same selection set, or the same failure, and data fits it or fails to at the same place for
the same reason, whatever the order of fields with different names in any of its objects and under
any name of the catalogue; and the fields of each selection set ascend strictly by their octets. -/
theorem order_unobserved :
    (∀ v v' : Value, v.Rearranged v' → ∀ (name : String) (declared : Shape) (m : Markers),
      (Variable.mk name v declared m).encode = (Variable.mk name v' declared m).encode) ∧
    (∀ v : Variable, v.value.Made → ∀ text, v.encode = .ok (some text) →
      text = v.argumentName ++ ": " ++ (v.value.prune v.markers .root).literal v.markers.raw ∧
      (v.value.prune v.markers .root).EachObject Utf8.Ascending) ∧
    (∀ (cat cat' : Catalogue) (s s' : Shape), cat.Rearranged cat' → s.Rearranged s' →
      s.selectionSet cat = s'.selectionSet cat' ∧
      (∀ c : OperationCall, { c with result := s }.selectionText cat
        = { c with result := s' }.selectionText cat') ∧
      ∀ j, s.fit cat j = s'.fit cat' j) ∧
    ∀ (cat : Catalogue) (s : Shape), cat.Composed → s.Composed → s.Distinct cat →
      ∀ text, s.selectionSet cat = .ok text → ∃ tree, s.Unfolds cat tree ∧
        text = Selected.renderSet tree ∧ Selected.EachSet Utf8.Ascending tree := by
  refine ⟨?_, ?_, ?_, ?_⟩
  · intro v v' hv name declared m
    rw [hv.eq]
  · intro v hmade text htext
    exact v.encode_ascending hmade htext
  · intro cat cat' s s' hcat hs
    have hsame : cat.SameFields cat' := hcat.sameFields
    have hset : s.selectionSet cat = s.selectionSet cat' := s.selectionSet_sameFields hsame
    rw [← hs.eq]
    refine ⟨hset, fun c => ?_, fun j => s.fit_sameFields hsame j⟩
    simp only [OperationCall.selectionText, hset]
  · intro cat s hcat hs hdistinct text htext
    obtain ⟨tree, htree, hrender⟩ := Shape.selectionSet_eq_ok_iff.mp htext
    have hunfolds : s.Unfolds cat tree := Shape.unfolds_of_ok htree
    exact ⟨tree, hunfolds, hrender, hunfolds.ascending_octets hs hcat hdistinct⟩

/-! ### what is met first of several -/

/-- a node with two fields that lead back to it -/
def linkedNodes (fields : List (String × Shape)) : Catalogue := [("Node", .object fields)]

/-- Of two numbers without a literal, of two ways back to a type, and of two parts of data that do
not fit, the first by name is met, whichever was given first. -/
theorem order_unobserved_first :
    let inf : Value := .float ⟨false, 0x7FF0000000000000⟩
    let node : Shape := .deferred (.declared "Node")
    let forth := linkedNodes [("next", node), ("back", node)]
    let back := linkedNodes [("back", node), ("next", node)]
    let point (entries : List (String × Value)) : Variable :=
      .plain "at" (.list [.ofEntries entries]) (.scalar .any)
    let data : Json := .obj [("back", .int 1), ("next", .int 2)]
    (point [("y", inf), ("x", inf)]).encode = .error ⟨"at", ⟨"x"⟩⟩ ∧
    (point [("x", inf), ("y", inf)]).encode = .error ⟨"at", ⟨"x"⟩⟩ ∧
    node.selectionSet forth = .error (.cyclic ⟨"back"⟩ "Node") ∧
    node.selectionSet back = .error (.cyclic ⟨"back"⟩ "Node") ∧
    node.fit forth data = .error ⟨[.key "back"], .notObject .integer⟩ ∧
    node.fit back data = .error ⟨[.key "back"], .notObject .integer⟩ ∧
    (point [("é", .int 1), ("z", .int 2)]).encode = .ok (some "at: [\x7bz: 2, é: 1\x7d]") ∧
    ((point [("é", .int 1), ("z", .int 2)]).value.prune .default .root).EachObject
      Utf8.Ascending ∧
    ∃ tree, "\x7bz é\x7d" = Selected.renderSet tree ∧ Selected.EachSet Utf8.Ascending tree := by
  intro inf node forth back point data
  obtain ⟨hencode, hwritten, hchecked, hselected⟩ := order_unobserved
  have hback : (point [("x", inf), ("y", inf)]).encode = .error ⟨"at", ⟨"x"⟩⟩ := by decide +kernel
  have hobject : (Value.ofEntries [("y", inf), ("x", inf)]).Rearranged
      (.ofEntries [("x", inf), ("y", inf)]) := .permuted (by decide) (.swap _ _ _)
  have hentries : (Value.list [.ofEntries [("y", inf), ("x", inf)]]).Rearranged
      (.list [.ofEntries [("x", inf), ("y", inf)]]) := @Value.Rearranged.item [] [] _ _ hobject
  have hset : node.selectionSet back = .error (.cyclic ⟨"back"⟩ "Node") := by cbv
  have hfit : node.fit back data = .error ⟨[.key "back"], .notObject .integer⟩ := by cbv
  have hfields : forth.Rearranged back := by
    intro name
    by_cases hname : "Node" = name
    · subst hname
      exact .some (.object (by decide) (.swap _ _ _))
    · have hforth : forth.find? name = none := if_neg hname
      have hback : back.find? name = none := if_neg hname
      rw [hforth, hback]
      exact .none
  obtain ⟨hsets, -, hfits⟩ := hchecked forth back node node hfields (.same node)
  have hmade : (point [("é", .int 1), ("z", .int 2)]).value.Made := by
    refine .list (List.forall_mem_singleton.mpr (.object ?_))
    exact List.forall_mem_cons.mpr ⟨.int 1, List.forall_mem_singleton.mpr (.int 2)⟩
  have htext : (point [("é", .int 1), ("z", .int 2)]).encode
      = .ok (some "at: [\x7bz: 2, é: 1\x7d]") := by decide +kernel
  have hcomposed : (Shape.record none [("é", .scalar .int), ("z", .scalar .int)]).Composed := by
    refine .record (List.forall_mem_cons.mpr ⟨.scalar .int, ?_⟩)
    exact List.forall_mem_singleton.mpr (.scalar .int)
  have hdistinct :
      (Shape.record none [("é", .scalar .int), ("z", .scalar .int)]).Distinct [] := by
    have hsort : Entries.sort [("é", Shape.scalar .int), ("z", Shape.scalar .int)] =
        [("z", .scalar .int), ("é", .scalar .int)] :=
      Entries.Strict.sort_eq_of_perm (by decide) (.swap _ _ _)
    rw [Shape.record, hsort]
    refine Shape.distinct_of_each ⟨by decide, trivial, trivial, trivial⟩ ?_ ?_
    · intro name fields hmem
      cases hmem
    · intro name fields hfields
      cases hfields
  have hcatalogue : Catalogue.Composed [] := by
    intro name fields hmem
    cases hmem
  obtain ⟨tree, -, hrender, htree⟩ := hselected [] _ hcatalogue hcomposed hdistinct
    "\x7bz é\x7d" (by cbv)
  exact ⟨(hencode _ _ hentries _ _ _).trans hback, hback, hsets.trans hset, hset,
    (hfits data).trans hfit, hfit, htext, (hwritten _ hmade _ htext).2, tree, hrender, htree⟩

end GraphQLCall
