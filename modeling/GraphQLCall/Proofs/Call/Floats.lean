import GraphQLCall.Proofs.Call.NonFinite
import GraphQLCall.Proofs.Call.Written
import GraphQLCall.Proofs.FieldPath

/-!
# Calls: the number that an argument is refused for

The numbers of a value stand at the end of ways of keys, in the order in which they are written.  An
argument is refused for the first number without a literal of what is left of its value, and a list
of arguments for the first of them that is refused.

* `Value.floats`   the numbers of a value, each with the way to it
* `Value.nonFinite_eq`   the numbers without a literal are among those of what is left
* `Variable.encode_eq_error_iff`, `Variable.encode_fails_iff`   when an argument is refused
* `Variable.encodeEach_eq_ok_iff`   the arguments that are written
* `Variable.encodeAll_eq_error_iff_encode`   the argument that several are refused for
* `Variable.encodeAll_outcome`   when arguments are refused, and what is written of them
-/

namespace GraphQLCall

open Number (Double)

namespace Value

mutual

/-- **The numbers of a value with the ways to them,** in the order of writing.  The elements of a list
have the way of their list. -/
def floats : Value → List (List String × Double)
  | .float x => [([], x)]
  | .list items => floatsOfItems items
  | .object entries => floatsOfEntries entries
  | _ => []

def floatsOfItems : List Value → List (List String × Double)
  | [] => []
  | v :: rest => floats v ++ floatsOfItems rest

def floatsOfEntries : List (String × Value) → List (List String × Double)
  | [] => []
  | (name, v) :: rest => (floats v).map (fun f => (name :: f.1, f.2)) ++ floatsOfEntries rest

end

/-- the places below `path` of those of some numbers that are not finite -/
def placesOf (path : FieldPath) (floats : List (List String × Double)) : List FieldPath :=
  (floats.filter fun f => !f.2.isFinite).map fun f => path.descend f.1

theorem placesOf_append (path : FieldPath) (fs gs : List (List String × Double)) :
    placesOf path (fs ++ gs) = placesOf path fs ++ placesOf path gs := by
  rw [placesOf, List.filter_append, List.map_append]
  rfl

theorem placesOf_below (path : FieldPath) (name : String) (fs : List (List String × Double)) :
    placesOf path (fs.map fun f => (name :: f.1, f.2)) = placesOf (path.child name) fs := by
  rw [placesOf, List.filter_map, List.map_map]
  rfl

mutual

/-- **The numbers without a literal** are those of what is left of a value, in the same order. -/
theorem nonFinite_eq (m : Markers) (path : FieldPath) (v : Value) :
    v.nonFinite m path = placesOf path (v.prune m path).floats := by
  match v with
  | .float x =>
    cases hx : x.isFinite with
    | true => simp [nonFinite, prune, floats, placesOf, hx]
    | false =>
      simp [nonFinite, prune, floats, placesOf, hx]
      rfl
  | .list items => exact nonFiniteItems_eq m path items
  | .object entries => exact nonFiniteFields_eq m path entries
  | .null | .bool _ | .int _ | .str _ => rfl

theorem nonFiniteItems_eq (m : Markers) (path : FieldPath) (items : List Value) :
    nonFiniteItems m path items = placesOf path (floatsOfItems (pruneItems m path items)) := by
  match items with
  | [] => rfl
  | v :: rest =>
    rw [nonFiniteItems, pruneItems, floatsOfItems, placesOf_append, nonFinite_eq m path v,
      nonFiniteItems_eq m path rest]

theorem nonFiniteFields_eq (m : Markers) (path : FieldPath) (entries : List (String × Value)) :
    nonFiniteFields m path entries =
      placesOf path (floatsOfEntries (pruneEntries m path entries)) := by
  match entries with
  | [] => rfl
  | (name, v) :: rest =>
    have hrest := nonFiniteFields_eq m path rest
    rw [nonFiniteFields, pruneEntries]
    split
    · exact hrest
    · rw [floatsOfEntries, placesOf_append, placesOf_below, nonFinite_eq m (path.child name) v,
        hrest]

end

end Value

namespace Variable

/-- **The numbers of what is left of an argument,** with the ways to them. -/
def floats (v : Variable) : List (List String × Double) := (v.value.prune v.markers .root).floats

variable {v : Variable} {vs : List Variable} {e : NonFinite}

/-- **An argument is refused for the first number without a literal** of what is left of it. -/
theorem encode_eq_error_iff : v.encode = .error e ↔ ∃ before f after,
    v.floats = before ++ f :: after ∧ (∀ g ∈ before, g.2.isFinite = true) ∧
      f.2.isFinite = false ∧ e = ⟨v.argumentName, FieldPath.root.descend f.1⟩ := by
  have hfirst : v.nonFinite.head? = (v.floats.find? fun f => !f.2.isFinite).map fun f =>
      ⟨v.argumentName, FieldPath.root.descend f.1⟩ := by
    rw [nonFinite, Value.nonFinite_eq, Value.placesOf, List.map_map, List.head?_map,
      List.head?_filter]
    rfl
  rw [(firstOf_encode v).eq_error_iff, hfirst, Option.map_eq_some_iff]
  simp only [List.find?_eq_some_iff_append, Bool.not_not, Bool.not_eq_true']
  constructor
  · rintro ⟨f, ⟨hf, before, after, hfloats, hbefore⟩, he⟩
    exact ⟨before, f, after, hfloats, hbefore, hf, he.symm⟩
  · rintro ⟨before, f, after, hfloats, hbefore, hf, he⟩
    exact ⟨f, ⟨hf, before, after, hfloats, hbefore⟩, he.symm⟩

theorem encode_fails_iff : (∃ e, v.encode = .error e) ↔ ∃ f ∈ v.floats, f.2.isFinite = false := by
  rw [(firstOf_encode v).fails_iff, nonFinite, Value.nonFinite_eq, Value.placesOf]
  simp [floats]

theorem encode_eq_none (h : v.value.isNull = true) : v.encode = .ok none := if_pos h

/-- an argument whose value is not null is written if it is not refused -/
theorem encode_eq_some {o : Option String} (h : v.value.isNull = false) (ho : v.encode = .ok o) :
    ∃ text, o = some text := by
  rw [encode, if_neg (Bool.eq_false_iff.mp h)] at ho
  obtain ⟨l, -, rfl⟩ := Outcome.map_eq_ok_iff.mp ho
  exact ⟨_, rfl⟩

/-- **The arguments that are written** are those whose values are not null, in their order. -/
theorem encodeEach_eq_ok_iff {texts : List String} : encodeEach vs = .ok texts ↔
    List.Forall₂ (fun v text => v.encode = .ok (some text))
      (vs.filter fun v => !v.value.isNull) texts := by
  induction vs generalizing texts with
  | nil => simp [encodeEach, eq_comm]
  | cons v rest ih =>
    rw [encodeEach]
    cases hnull : v.value.isNull with
    | true =>
      simp only [encode_eq_none hnull, List.filter_cons, hnull, ih]
      rfl
    | false =>
      rw [List.filter_cons, hnull, Bool.not_false, if_pos rfl, List.forall₂_cons_left_iff]
      cases hv : v.encode with
      | error e => simp
      | ok o =>
        obtain ⟨text, rfl⟩ := encode_eq_some hnull hv
        simp [Outcome.map_eq_ok_iff, ih]

/-- **Arguments are refused for the first of them that is,** whatever stands behind it. -/
theorem encodeAll_eq_error_iff_encode : encodeAll vs = .error e ↔ ∃ before v after,
    vs = before ++ v :: after ∧ (∀ u ∈ before, ∃ o, u.encode = .ok o) ∧ v.encode = .error e := by
  have hrefused (v : Variable) : v.nonFinite.head? = some e ↔ v.encode = .error e :=
    (firstOf_encode v).eq_error_iff.symm
  have hwritten (v : Variable) : v.nonFinite.head? = none ↔ ∃ o, v.encode = .ok o :=
    List.head?_eq_none_iff.trans (firstOf_encode v).eq_ok_iff.symm
  rw [(firstOf_encodeAll vs).eq_error_iff, List.head?_flatMap, List.findSome?_eq_some_iff]
  simp only [hrefused, hwritten]
  exact exists₃_congr fun _ _ _ => and_congr_right fun _ => and_comm

/-- **When arguments are refused, and for which number.**  An argument is refused just if what is left
of its value has a number that is not finite, and for the first of them, at the place below the
argument that the keys on the way to it make.  Several are refused just if one is, and for the same
number as the first that is; else those whose values are not null are written in their order. -/
theorem encodeAll_outcome :
    (∀ v : Variable,
      ((∃ e, v.encode = .error e) ↔ ∃ f ∈ v.floats, f.2.isFinite = false) ∧
      ∀ e, v.encode = .error e ↔ ∃ before f after, v.floats = before ++ f :: after ∧
        (∀ g ∈ before, g.2.isFinite = true) ∧ f.2.isFinite = false ∧
        e = ⟨v.argumentName, FieldPath.root.descend f.1⟩) ∧
    ∀ vs : List Variable,
      ((∃ e, encodeAll vs = .error e) ↔ ∃ v ∈ vs, ∃ e, v.encode = .error e) ∧
      (∀ e, encodeAll vs = .error e ↔ ∃ before v after, vs = before ++ v :: after ∧
        (∀ u ∈ before, ∃ o, u.encode = .ok o) ∧ v.encode = .error e) ∧
      ∀ text, encodeAll vs = .ok text ↔ ∃ texts,
        List.Forall₂ (fun v text => v.encode = .ok (some text))
          (vs.filter fun v => !v.value.isNull) texts ∧
        text = if texts = [] then "" else "(" ++ Text.join ", " texts ++ ")" := by
  refine ⟨fun v => ⟨encode_fails_iff, fun _ => encode_eq_error_iff⟩, fun vs =>
    ⟨?_, fun _ => encodeAll_eq_error_iff_encode, fun text => ?_⟩⟩
  · rw [(firstOf_encodeAll vs).fails_iff, ne_eq, List.flatMap_eq_nil_iff]
    simp only [(firstOf_encode _).fails_iff, not_forall, exists_prop]
  · have hparenthesize (texts : List String) : parenthesize texts =
        if texts = [] then "" else "(" ++ Text.join ", " texts ++ ")" := by
      cases texts <;> rfl
    rw [encodeAll, Outcome.map_eq_ok_iff]
    simp only [encodeEach_eq_ok_iff, hparenthesize]

/-- the number under a field that is ignored is passed over, and so is the one behind the first -/
example :
    let infinite : Value := .float ⟨false, 0x7FF0000000000000⟩
    let v : Variable := ⟨"at", .object [("a", infinite), ("b", .list [.null, .object [("c", infinite)],
      infinite])], .scalar .any, ⟨some "place", ["a"], true⟩⟩
    encodeAll [⟨"n", .null, .scalar .int, .default⟩, v] = .error ⟨"place", ⟨"b.c"⟩⟩ := by
  rfl

end Variable

end GraphQLCall
