import GraphQLCall.Call.Literal
import GraphQLCall.Proofs.Outcome

/-!
# Calls: numbers that have no literal

A number that is not finite has no literal, and keeps the argument that it is written in from being
written.  It does no harm where it is not written: in a field that is ignored.

* `Value.WritesFloat`   the numbers that are written of a value, with their places
* `Value.nonFinite`   the places of those that are not finite, in the order of writing
* `Value.mem_nonFinite_iff`   both agree
* `firstOf_ofValue`   a literal fails with the first of them
* `Variable.nonFinite`, `firstOf_encode`, `firstOf_encodeAll`   the same of the arguments of a call
-/

namespace GraphQLCall

open Outcome (FirstOf)

namespace Value

/-- **The numbers that are written of a value** at a place of an argument, each with its place: none
in a field that is null or ignored.  The elements of a list have the place of their list. -/
inductive WritesFloat (m : Markers) : FieldPath → Value → FieldPath → Number.Double → Prop
  | here (path : FieldPath) (x : Number.Double) : WritesFloat m path (.float x) path x
  | item {path p : FieldPath} {items : List Value} {v : Value} {x : Number.Double} : v ∈ items →
      WritesFloat m path v p x → WritesFloat m path (.list items) p x
  | field {path p : FieldPath} {entries : List (String × Value)} {name : String} {v : Value}
      {x : Number.Double} : (name, v) ∈ entries → m.isIgnored (path.child name) = false →
      v.isNull = false → WritesFloat m (path.child name) v p x →
      WritesFloat m path (.object entries) p x

mutual

/-- **The places of the numbers that are not finite,** in the order of writing. -/
def nonFinite (m : Markers) (path : FieldPath) : Value → List FieldPath
  | .float x => if x.isFinite then [] else [path]
  | .list items => nonFiniteItems m path items
  | .object entries => nonFiniteFields m path entries
  | _ => []

def nonFiniteItems (m : Markers) (path : FieldPath) : List Value → List FieldPath
  | [] => []
  | v :: rest => nonFinite m path v ++ nonFiniteItems m path rest

def nonFiniteFields (m : Markers) (path : FieldPath) : List (String × Value) → List FieldPath
  | [] => []
  | (name, v) :: rest =>
    (if m.isIgnored (path.child name) || v.isNull then [] else nonFinite m (path.child name) v) ++
      nonFiniteFields m path rest

end

variable {m : Markers} {p : FieldPath}

mutual

theorem mem_nonFinite_iff {path : FieldPath} {v : Value} : p ∈ v.nonFinite m path ↔
    ∃ x, v.WritesFloat m path p x ∧ x.isFinite = false := by
  match v with
  | .float x =>
    rw [nonFinite]
    constructor
    · intro h
      split at h
      · cases h
      · rename_i hx
        obtain rfl := List.mem_singleton.mp h
        exact ⟨x, .here _ x, Bool.eq_false_iff.mpr hx⟩
    · rintro ⟨x, hw, hx⟩
      cases hw
      rw [if_neg (Bool.eq_false_iff.mp hx)]
      exact List.mem_singleton_self _
  | .list items =>
    rw [nonFinite, mem_nonFiniteItems_iff]
    constructor
    · rintro ⟨v, hv, x, hw, hx⟩
      exact ⟨x, .item hv hw, hx⟩
    · rintro ⟨x, hw, hx⟩
      cases hw with
      | item hv hw => exact ⟨_, hv, x, hw, hx⟩
  | .object entries =>
    rw [nonFinite, mem_nonFiniteFields_iff]
    constructor
    · rintro ⟨e, he, hignored, hnull, x, hw, hx⟩
      exact ⟨x, .field he hignored hnull hw, hx⟩
    · rintro ⟨x, hw, hx⟩
      cases hw with
      | field he hignored hnull hw => exact ⟨_, he, hignored, hnull, x, hw, hx⟩
  | .null | .bool _ | .int _ | .str _ =>
    simp only [nonFinite]
    refine ⟨nofun, ?_⟩
    rintro ⟨x, hw, -⟩
    cases hw

theorem mem_nonFiniteItems_iff {path : FieldPath} {items : List Value} :
    p ∈ nonFiniteItems m path items ↔
      ∃ v ∈ items, ∃ x, WritesFloat m path v p x ∧ x.isFinite = false := by
  match items with
  | [] => simp [nonFiniteItems]
  | v :: rest =>
    rw [nonFiniteItems, List.mem_append, mem_nonFinite_iff, mem_nonFiniteItems_iff]
    simp

theorem mem_nonFiniteFields_iff {path : FieldPath} {entries : List (String × Value)} :
    p ∈ nonFiniteFields m path entries ↔ ∃ e ∈ entries, m.isIgnored (path.child e.1) = false ∧
      e.2.isNull = false ∧ ∃ x, WritesFloat m (path.child e.1) e.2 p x ∧ x.isFinite = false := by
  match entries with
  | [] => simp [nonFiniteFields]
  | (name, v) :: rest =>
    have hhead : p ∈ (if m.isIgnored (path.child name) || v.isNull then []
        else nonFinite m (path.child name) v) ↔ m.isIgnored (path.child name) = false ∧
        v.isNull = false ∧ ∃ x, WritesFloat m (path.child name) v p x ∧ x.isFinite = false := by
      rw [← mem_nonFinite_iff]
      cases m.isIgnored (path.child name) <;> cases v.isNull <;> simp
    rw [nonFiniteFields, List.mem_append, hhead, mem_nonFiniteFields_iff,
      List.exists_mem_cons_iff]

end

end Value

/-! ### literals -/

section
variable {m : Markers} {argument : String}

mutual

/-- **A literal fails with the first number that has none.** -/
theorem firstOf_ofValue (path : FieldPath) (v : Value) :
    FirstOf ((v.nonFinite m path).map (NonFinite.mk argument))
      (Literal.ofValue m argument path v) := by
  match v with
  | .float x =>
    rw [Value.nonFinite, Literal.ofValue, Literal.ofFloat?]
    by_cases hx : x.isFinite = true
    · rw [if_pos hx, if_pos hx]
      exact ⟨_, rfl⟩
    · rw [if_neg hx, if_neg hx]
      exact rfl
  | .list items =>
    rw [Value.nonFinite, Literal.ofValue]
    exact (firstOf_ofItems path items).map _
  | .object entries =>
    rw [Value.nonFinite, Literal.ofValue]
    exact (firstOf_ofFields path entries).map _
  | .null | .bool true | .bool false | .int _ | .str _ => exact ⟨_, rfl⟩

theorem firstOf_ofItems (path : FieldPath) (items : List Value) :
    FirstOf ((Value.nonFiniteItems m path items).map (NonFinite.mk argument))
      (Literal.ofItems m argument path items) := by
  match items with
  | [] => exact ⟨[], rfl⟩
  | v :: rest =>
    have hbind : Literal.ofItems m argument path (v :: rest) =
        (Literal.ofValue m argument path v).bind fun l =>
          (Literal.ofItems m argument path rest).map (l :: ·) := by
      rw [Literal.ofItems]
      cases Literal.ofValue m argument path v <;> rfl
    rw [hbind, Value.nonFiniteItems, List.map_append]
    exact (firstOf_ofValue path v).bind fun l => (firstOf_ofItems path rest).map _

theorem firstOf_ofFields (path : FieldPath) (entries : List (String × Value)) :
    FirstOf ((Value.nonFiniteFields m path entries).map (NonFinite.mk argument))
      (Literal.ofFields m argument path entries) := by
  match entries with
  | [] => exact ⟨[], rfl⟩
  | (name, v) :: rest =>
    rw [Value.nonFiniteFields, List.map_append]
    by_cases hskip : (m.isIgnored (path.child name) || v.isNull) = true
    · rw [Literal.ofFields, if_pos hskip, if_pos hskip]
      exact firstOf_ofFields path rest
    · have hbind : Literal.ofFields m argument path ((name, v) :: rest) =
          (Literal.ofValue m argument (path.child name) v).bind fun l =>
            (Literal.ofFields m argument path rest).map ((name ++ ": " ++ l) :: ·) := by
        rw [Literal.ofFields, if_neg hskip]
        cases Literal.ofValue m argument (path.child name) v <;> rfl
      rw [hbind, if_neg hskip]
      exact (firstOf_ofValue (path.child name) v).bind fun l => (firstOf_ofFields path rest).map _

end

end

/-! ### arguments -/

namespace Variable

/-- **The numbers of an argument that have no literal,** in the order of writing. -/
def nonFinite (v : Variable) : List NonFinite :=
  (v.value.nonFinite v.markers .root).map (NonFinite.mk v.argumentName)

/-- **All numbers that are written of an argument are finite.** -/
def Finite (v : Variable) : Prop :=
  ∀ p x, v.value.WritesFloat v.markers .root p x → x.isFinite = true

theorem finite_iff {v : Variable} : v.Finite ↔ v.nonFinite = [] := by
  rw [nonFinite, List.map_eq_nil_iff, List.eq_nil_iff_forall_not_mem]
  simp only [Value.mem_nonFinite_iff, not_exists, not_and, Bool.not_eq_false]
  exact Iff.rfl

theorem firstOf_encode (v : Variable) : FirstOf v.nonFinite v.encode := by
  unfold encode
  by_cases hnull : v.value.isNull = true
  · have hnone : v.nonFinite = [] := by
      unfold nonFinite
      cases hv : v.value with
      | null => rfl
      | _ =>
        rw [hv] at hnull
        cases hnull
    rw [if_pos hnull, hnone]
    exact ⟨none, rfl⟩
  · rw [if_neg hnull]
    exact (firstOf_ofValue .root v.value).map _

theorem firstOf_encodeEach (vs : List Variable) :
    FirstOf (vs.flatMap nonFinite) (encodeEach vs) := by
  induction vs with
  | nil => exact ⟨[], rfl⟩
  | cons v rest ih =>
    have hbind : encodeEach (v :: rest) = v.encode.bind fun o =>
        (encodeEach rest).map (o.toList ++ ·) := by
      rw [encodeEach]
      cases v.encode with
      | error e => rfl
      | ok o =>
        cases o with
        | none => cases encodeEach rest <;> rfl
        | some s => rfl
    rw [hbind, List.flatMap_cons]
    exact (firstOf_encode v).bind fun o => ih.map _

/-- **The arguments of a call fail with the first number that has no literal.** -/
theorem firstOf_encodeAll (vs : List Variable) : FirstOf (vs.flatMap nonFinite) (encodeAll vs) :=
  (firstOf_encodeEach vs).map _

theorem encodeAll_eq_ok_iff {vs : List Variable} :
    (∃ text, encodeAll vs = .ok text) ↔ ∀ v ∈ vs, v.Finite := by
  rw [(firstOf_encodeAll vs).eq_ok_iff, List.flatMap_eq_nil_iff]
  exact forall₂_congr fun v _ => finite_iff.symm

/-- the arguments in front of the first that fails are written -/
theorem encodeAll_eq_error_iff {vs : List Variable} {place : NonFinite} :
    encodeAll vs = .error place ↔ ∃ before v after p, vs = before ++ v :: after ∧
      (∀ u ∈ before, u.Finite) ∧ (v.value.nonFinite v.markers .root).head? = some p ∧
      place = ⟨v.argumentName, p⟩ := by
  rw [(firstOf_encodeAll vs).eq_error_iff, List.head?_flatMap, List.findSome?_eq_some_iff]
  simp only [List.head?_eq_none_iff, ← finite_iff]
  constructor
  · rintro ⟨before, v, after, hvs, hv, hbefore⟩
    rw [nonFinite, List.head?_map, Option.map_eq_some_iff] at hv
    obtain ⟨p, hp, hplace⟩ := hv
    exact ⟨before, v, after, p, hvs, hbefore, hp, hplace.symm⟩
  · rintro ⟨before, v, after, p, hvs, hbefore, hp, rfl⟩
    refine ⟨before, v, after, hvs, ?_, hbefore⟩
    rw [nonFinite, List.head?_map, hp]
    rfl

end Variable

end GraphQLCall
