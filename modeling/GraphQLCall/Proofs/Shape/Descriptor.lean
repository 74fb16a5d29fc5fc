import GraphQLCall.Proofs.Outcome
import GraphQLCall.Shape.Descriptor

/-!
# Shapes: which data describes which shape

* `Json.Describes`   the descriptors of a shape
* `ScalarKind.ofGraphQLName?_eq_some_iff`   the kinds have different names
* `Shape.ofDescriptor_eq_ok_iff`   just the descriptors are taken
-/

namespace GraphQLCall

namespace Json

mutual

/-- **The descriptors of a shape:** null and true for data of any kind, the name of a kind, an array of
one descriptor for a list, and an object of descriptors for an object. -/
inductive Describes : Json → Shape → Prop
  | null : Describes .null (.scalar .any)
  | yes : Describes (.bool true) (.scalar .any)
  | scalar (kind : ScalarKind) : Describes (.str kind.graphqlName) (.scalar kind)
  | list {j : Json} {inner : Shape} : Describes j inner → Describes (.arr [j]) (.list inner)
  | object {entries : List (String × Json)} {fields : List (String × Shape)} :
      DescribesFields entries fields → Describes (.obj entries) (.record none fields)

inductive DescribesFields : List (String × Json) → List (String × Shape) → Prop
  | nil : DescribesFields [] []
  | cons {name : String} {j : Json} {s : Shape} {entries : List (String × Json)}
      {fields : List (String × Shape)} : Describes j s → DescribesFields entries fields →
      DescribesFields ((name, j) :: entries) ((name, s) :: fields)

end

end Json

theorem ScalarKind.ofGraphQLName?_eq_some_iff {name : String} {kind : ScalarKind} :
    ofGraphQLName? name = some kind ↔ name = kind.graphqlName := by
  constructor
  · intro h
    have hname := List.find?_some h
    exact (of_decide_eq_true hname).symm
  · rintro rfl
    cases kind <;> rfl

theorem DescriptorError.within_eq_ok_iff {α : Type} {step : DescriptorStep}
    {r : Except DescriptorError α} {a : α} : within step r = .ok a ↔ r = .ok a := by
  cases r with
  | ok b => exact Iff.rfl
  | error e => exact ⟨nofun, nofun⟩

namespace Shape

mutual

/-- **Just the descriptors are taken,** each for its shape. -/
theorem ofDescriptor_eq_ok_iff {j : Json} {s : Shape} : ofDescriptor j = .ok s ↔ j.Describes s := by
  match j with
  | .null =>
    constructor
    · intro h
      cases h
      exact .null
    · rintro ⟨⟩
      rfl
  | .bool true =>
    constructor
    · intro h
      cases h
      exact .yes
    · rintro ⟨⟩
      rfl
  | .str name =>
    rw [ofDescriptor]
    constructor
    · intro h
      split at h
      · rename_i kind hkind
        cases h
        rw [ScalarKind.ofGraphQLName?_eq_some_iff.mp hkind]
        exact .scalar kind
      · cases h
    · rintro ⟨⟩
      rename_i kind
      rw [ScalarKind.ofGraphQLName?_eq_some_iff.mpr rfl]
  | .arr [element] =>
    rw [ofDescriptor]
    constructor
    · intro h
      split at h
      · rename_i inner hinner
        cases h
        exact .list (ofDescriptor_eq_ok_iff.mp (DescriptorError.within_eq_ok_iff.mp hinner))
      · cases h
    · rintro ⟨⟩
      rename_i inner hinner
      rw [DescriptorError.within_eq_ok_iff.mpr (ofDescriptor_eq_ok_iff.mpr hinner)]
  | .arr [] => exact ⟨nofun, nofun⟩
  | .arr (_ :: _ :: _) => exact ⟨nofun, nofun⟩
  | .obj entries =>
    rw [ofDescriptor]
    constructor
    · intro h
      split at h
      · rename_i fields hfields
        cases h
        exact .object (fieldsOfDescriptor_eq_ok_iff.mp hfields)
      · cases h
    · rintro ⟨⟩
      rename_i fields hfields
      rw [fieldsOfDescriptor_eq_ok_iff.mpr hfields]
  | .bool false | .int _ | .float _ => exact ⟨nofun, nofun⟩

theorem fieldsOfDescriptor_eq_ok_iff {entries : List (String × Json)}
    {fields : List (String × Shape)} :
    fieldsOfDescriptor entries = .ok fields ↔ Json.DescribesFields entries fields := by
  match entries with
  | [] =>
    constructor
    · intro h
      cases h
      exact .nil
    · rintro ⟨⟩
      rfl
  | (name, j) :: rest =>
    rw [fieldsOfDescriptor]
    constructor
    · intro h
      split at h
      · cases h
      · rename_i s hs
        split at h
        · cases h
        · rename_i others hothers
          cases h
          exact .cons (ofDescriptor_eq_ok_iff.mp (DescriptorError.within_eq_ok_iff.mp hs))
            (fieldsOfDescriptor_eq_ok_iff.mp hothers)
    · rintro (_ | ⟨hs, hothers⟩)
      rw [DescriptorError.within_eq_ok_iff.mpr (ofDescriptor_eq_ok_iff.mpr hs),
        fieldsOfDescriptor_eq_ok_iff.mpr hothers]

end

end Shape

end GraphQLCall
