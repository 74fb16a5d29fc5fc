import GraphQLCall.Proofs.Call.Reading
import GraphQLCall.Proofs.Shape.Order
import GraphQLCall.Proofs.Text.Utf8

/-!
# Selection sets: the order of fields

A selection set looks at nothing of a catalogue but at the fields that names stand for, so it does
not show in which order fields were given.  Fields with different names stand in the order of their
octets, at every depth.

* `Shape.selectionSet_sameFields`   catalogues whose names stand for the same fields
* `Shape.Composed`, `Catalogue.Composed`   what is put together of its parts
* `Shape.Distinct`   fields that stand together have different names
* `Shape.Unfolds.ascending_octets`   the fields of each selection set in strictly ascending order
-/

namespace GraphQLCall

namespace Shape

/-! ### catalogues whose names stand for the same fields -/

section
variable {cat cat' : Catalogue} (h : cat.SameFields cat')
include h

theorem selectAll_sameFields {way : List String} {fields : List (String × Shape)}
    (hfields : ∀ f ∈ fields, ∀ path,
      f.2.selectedFields cat way path = f.2.selectedFields cat' way path) (path : FieldPath) :
    selectAll cat way path fields = selectAll cat' way path fields := by
  induction fields with
  | nil => rw [selectAll, selectAll]
  | cons field rest ih =>
    obtain ⟨name, s⟩ := field
    obtain ⟨hs, hrest⟩ := List.forall_mem_cons.mp hfields
    rw [selectAll, selectAll, isStructured_sameFields h, hs (path.child name), ih hrest]

theorem selectedFields_sameFields (way : List String) (s : Shape) (path : FieldPath) :
    s.selectedFields cat way path = s.selectedFields cat' way path := by
  induction way, s using walk_induction cat generalizing path with
  | step way s ih =>
    have hsame := innermost_sameFields h s
    cases standing cat way s with
    | bare hbare =>
      rw [selectedFields_of_bare hbare, selectedFields_of_bare (hsame ▸ hbare)]
    | hollow object =>
      rw [selectedFields_of_hollow object, selectedFields_of_hollow (hsame ▸ object)]
    | opened object hne hopen =>
      have hopen := isOpen_of_mem hopen
      rw [selectedFields_of_open object hne hopen,
        selectedFields_of_open (hsame ▸ object) hne hopen]
    | fresh object hne fresh =>
      rw [selectedFields_of_fresh object hne fresh,
        selectedFields_of_fresh (hsame ▸ object) hne fresh]
      exact selectAll_sameFields h (fun f hf path => ih _ _ object fresh f hf path) path

/-- **A selection set** looks at nothing of a catalogue but at the fields that names stand for. -/
theorem selectionSet_sameFields (s : Shape) : s.selectionSet cat = s.selectionSet cat' := by
  rw [selectionSet, selectionSet, selectedFields_sameFields h]

end

end Shape

/-! ### fields with different names -/

/-- **A shape that is put together of its parts,** its objects of lists of fields. -/
inductive Shape.Composed : Shape → Prop
  | scalar (kind : ScalarKind) : Composed (.scalar kind)
  | list {inner : Shape} : Composed inner → Composed (.list inner)
  | record {typeName : Option String} {fields : List (String × Shape)} :
      (∀ f ∈ fields, Composed f.2) → Composed (.record typeName fields)
  | deferred (t : Ty) : Composed (.deferred t)

/-- the fields of all described objects are put together of their parts -/
def Catalogue.Composed (cat : Catalogue) : Prop :=
  ∀ name fields, (name, Declaration.object fields) ∈ cat → ∀ f ∈ fields, f.2.Composed

namespace Shape

variable {cat : Catalogue} {s : Shape}

/-- **Fields that stand together have different names,** at each place of the unfolding. -/
def Distinct (cat : Catalogue) (s : Shape) : Prop :=
  ∀ p above t, s.Reaches cat p above t → ((t.fields cat).map Prod.fst).Nodup

theorem distinct_of_each (hs : s.Each fun _ fields => (fields.map Prod.fst).Nodup)
    (hc : cat.Each fun _ fields => (fields.map Prod.fst).Nodup)
    (hd : ∀ name fields, cat.fields? name = some fields → (fields.map Prod.fst).Nodup) :
    s.Distinct cat := by
  intro p above t hr
  exact hr.of_each (Q := fun fields => (fields.map Prod.fst).Nodup) hs hc hd List.nodup_nil

theorem Composed.ordered (h : s.Composed) : s.Ordered := by
  unfold Ordered
  induction h with
  | scalar kind => trivial
  | list _ ih => exact ih
  | @record typeName fields _ ih =>
    exact ⟨Entries.ascending_sort fields, eachOf_iff.mpr fun f hf => ih f (Entries.mem_sort.mp hf)⟩
  | deferred t => trivial

/-- **The fields of each selection set** stand in strictly ascending order of the octets of their
names. -/
theorem Unfolds.ascending_octets {tree : List Selected} (h : s.Unfolds cat tree)
    (hs : s.Composed) (hc : cat.Composed) (hdistinct : s.Distinct cat) :
    Selected.EachSet Utf8.Ascending tree := by
  refine h.eachSet fun p above t hr => ?_
  have hascending : Entries.Ascending (t.fields cat) :=
    hr.ascending_fields hs.ordered fun name fields hmem f hf => (hc name fields hmem f hf).ordered
  have hstrict := Entries.strict_of_ascending hascending (hdistinct p above t hr)
  exact Utf8.ascending_iff.mpr hstrict.names

end Shape

end GraphQLCall
