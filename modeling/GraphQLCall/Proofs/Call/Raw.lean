import GraphQLCall.Call.Literal

/-!
# Calls: strings that are written as they are

Whether strings are written as they are or in quotes matters to the strings alone.  The keys of objects,
the fields that are left out and the numbers that are refused have no part in it.

* `Value.mapTexts`   a value with other strings at its leaves
* `Value.texts`   the strings at the leaves of a value, in the order of writing
* `Value.mapTexts_of_texts_eq_nil`   a value without strings
* `ofValue_mapTexts`   the literal of a value with other strings
* `Variable.encode_raw`   an argument with its strings as they are, and in quotes
-/

namespace GraphQLCall

namespace Value

mutual

/-- **A value with other strings at its leaves.**  The keys of objects stay. -/
def mapTexts (f : String → String) : Value → Value
  | .str s => .str (f s)
  | .list items => .list (mapItemTexts f items)
  | .object entries => .object (mapEntryTexts f entries)
  | v => v

def mapItemTexts (f : String → String) : List Value → List Value
  | [] => []
  | v :: rest => mapTexts f v :: mapItemTexts f rest

def mapEntryTexts (f : String → String) : List (String × Value) → List (String × Value)
  | [] => []
  | (name, v) :: rest => (name, mapTexts f v) :: mapEntryTexts f rest

end

mutual

/-- **The strings at the leaves of a value,** in the order of writing. -/
def texts : Value → List String
  | .str s => [s]
  | .list items => itemTexts items
  | .object entries => entryTexts entries
  | _ => []

def itemTexts : List Value → List String
  | [] => []
  | v :: rest => texts v ++ itemTexts rest

def entryTexts : List (String × Value) → List String
  | [] => []
  | (_, v) :: rest => texts v ++ entryTexts rest

end

theorem isNull_mapTexts (f : String → String) (v : Value) : (v.mapTexts f).isNull = v.isNull := by
  cases v <;> rfl

mutual

/-- a value without strings stays as it is -/
theorem mapTexts_of_texts_eq_nil (f : String → String) {v : Value} (h : v.texts = []) :
    v.mapTexts f = v := by
  match v with
  | .str s => exact absurd h (List.cons_ne_nil s [])
  | .list items => exact congrArg Value.list (mapItemTexts_of_itemTexts_eq_nil f h)
  | .object entries => exact congrArg Value.object (mapEntryTexts_of_entryTexts_eq_nil f h)
  | .null | .bool _ | .int _ | .float _ => rfl

theorem mapItemTexts_of_itemTexts_eq_nil (f : String → String) {items : List Value}
    (h : itemTexts items = []) : mapItemTexts f items = items := by
  match items with
  | [] => rfl
  | v :: rest =>
    obtain ⟨hv, hrest⟩ := List.append_eq_nil_iff.mp h
    rw [mapItemTexts, mapTexts_of_texts_eq_nil f hv, mapItemTexts_of_itemTexts_eq_nil f hrest]

theorem mapEntryTexts_of_entryTexts_eq_nil (f : String → String) {entries : List (String × Value)}
    (h : entryTexts entries = []) : mapEntryTexts f entries = entries := by
  match entries with
  | [] => rfl
  | (name, v) :: rest =>
    obtain ⟨hv, hrest⟩ := List.append_eq_nil_iff.mp h
    rw [mapEntryTexts, mapTexts_of_texts_eq_nil f hv, mapEntryTexts_of_entryTexts_eq_nil f hrest]

end

end Value

/-! ### literals -/

section
variable {m : Markers} {argument : String}

mutual

/-- **The literal of a value with its strings put in quotes,** each written as it is, is that of the
value, each written in quotes. -/
theorem ofValue_mapTexts (path : FieldPath) (v : Value) :
    Literal.ofValue { m with raw := true } argument path (v.mapTexts Literal.quote) =
      Literal.ofValue { m with raw := false } argument path v := by
  match v with
  | .list items =>
    rw [Value.mapTexts, Literal.ofValue, Literal.ofValue, ofItems_mapTexts path items]
  | .object entries =>
    rw [Value.mapTexts, Literal.ofValue, Literal.ofValue, ofFields_mapTexts path entries]
  | .null | .bool true | .bool false | .int _ | .float _ | .str _ => rfl

theorem ofItems_mapTexts (path : FieldPath) (items : List Value) :
    Literal.ofItems { m with raw := true } argument path (Value.mapItemTexts Literal.quote items) =
      Literal.ofItems { m with raw := false } argument path items := by
  match items with
  | [] => rfl
  | v :: rest =>
    rw [Value.mapItemTexts, Literal.ofItems, Literal.ofItems, ofValue_mapTexts path v,
      ofItems_mapTexts path rest]

theorem ofFields_mapTexts (path : FieldPath) (entries : List (String × Value)) :
    Literal.ofFields { m with raw := true } argument path
        (Value.mapEntryTexts Literal.quote entries) =
      Literal.ofFields { m with raw := false } argument path entries := by
  match entries with
  | [] => rfl
  | (name, v) :: rest =>
    -- the same fields are left out, for the names are the same and so is what is null
    have hskip : (Markers.isIgnored { m with raw := true } (path.child name) ||
        (v.mapTexts Literal.quote).isNull) =
        (Markers.isIgnored { m with raw := false } (path.child name) || v.isNull) := by
      rw [Value.isNull_mapTexts]
      rfl
    rw [Value.mapEntryTexts, Literal.ofFields, Literal.ofFields, hskip,
      ofValue_mapTexts (path.child name) v, ofFields_mapTexts path rest]

end

end

namespace Variable

/-- **An argument whose strings were put in quotes and are written as they are** is the argument whose
strings are written in quotes: the same text, or none, or the same number refused.  Where there are no
strings it is written the same either way. -/
theorem encode_raw (v : Variable) :
    let written (raw : Bool) (w : Value) : Variable :=
      { v with value := w, markers := { v.markers with raw := raw } }
    (written true (v.value.mapTexts Literal.quote)).encode = (written false v.value).encode ∧
    (v.value.texts = [] → (written true v.value).encode = (written false v.value).encode) := by
  intro written
  have hquoted : (written true (v.value.mapTexts Literal.quote)).encode =
      (written false v.value).encode := by
    have hnull : (v.value.mapTexts Literal.quote).isNull = v.value.isNull :=
      Value.isNull_mapTexts _ _
    have hliteral := @ofValue_mapTexts v.markers v.argumentName .root v.value
    unfold encode
    show (if (v.value.mapTexts Literal.quote).isNull then _ else _) = if v.value.isNull then _ else _
    rw [hnull]
    exact congrArg (fun r => if v.value.isNull then Except.ok none else
      r.map fun l => some (v.argumentName ++ ": " ++ l)) hliteral
  refine ⟨hquoted, fun hnone => ?_⟩
  rw [Value.mapTexts_of_texts_eq_nil _ hnone] at hquoted
  exact hquoted

/-- The strings of a list's element and of a field are put in quotes, a key and a null element are not,
and a field that is ignored is not written; a list of numbers is refused for the first without a
literal. -/
theorem encode_raw_nested :
    let value : Value := .object [("a", .str "x\"y"), ("b", .list [.str "", .null, .int 1]),
      ("c", .str "gone")]
    let quoted : Value := .object [("a", .str "\"x\\\"y\""), ("b", .list [.str "\"\"", .null, .int 1]),
      ("c", .str "\"gone\"")]
    let numbers : Value := .list [.int 1, .float ⟨true, 0x7FF0000000000000⟩]
    let written (raw : Bool) (w : Value) : Variable := ⟨"at", w, .scalar .any, ⟨none, ["c"], raw⟩⟩
    value.mapTexts Literal.quote = quoted ∧
    (written true quoted).encode = .ok (some "at: \x7ba: \"x\\\"y\", b: [\"\", null, 1]\x7d") ∧
    (written true value).encode = .ok (some "at: \x7ba: x\"y, b: [, null, 1]\x7d") ∧
    numbers.texts = [] ∧ (written true numbers).encode = .error ⟨"at", ⟨""⟩⟩ := by
  intro value quoted numbers written
  have hquoted : value.mapTexts Literal.quote = quoted := rfl
  have hplain : (written false value).encode =
      .ok (some "at: \x7ba: \"x\\\"y\", b: [\"\", null, 1]\x7d") := by cbv
  have hrefused : (written false numbers).encode = .error ⟨"at", ⟨""⟩⟩ := rfl
  obtain ⟨hsame, -⟩ := encode_raw (written false value)
  obtain ⟨-, hnumbers⟩ := encode_raw (written false numbers)
  refine ⟨hquoted, ?_, by cbv, rfl, ?_⟩
  · rw [← hquoted]
    exact hsame.trans hplain
  · exact (hnumbers rfl).trans hrefused

end Variable

end GraphQLCall
