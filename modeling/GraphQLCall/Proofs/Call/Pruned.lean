import GraphQLCall.Proofs.Call.Order

/-!
# Calls: ignoring is pruning

What is ignored of an argument, and what is null, might as well not be there: the argument is written
as what is left of its value.  So what is ignored in two steps is ignored in one.

* `Markers.ignoring`, `Markers.ignoreAll`   markers that ignore paths, and markers with more of them
* `Value.placed`   the values at the end of a way of keys
* `Value.refill`   a value with other contents in the fields that are ignored
* `Value.prune_prune`   what is left in two steps
* `Value.prune_congr`   only the paths of the fields that a value has matter
* `Value.placed_prune_null`, `Value.placed_prune_below`   what is not left of a value
* `Variable.encode_congr`   only what is left of a value is written
* `Variable.encode_ignoreAll`   what follows of arguments with more paths to be ignored
-/

namespace GraphQLCall

/-! ### markers -/

namespace Markers

variable {m : Markers} {p : FieldPath}

/-- the markers that say nothing but which paths are to be ignored -/
def ignoring (paths : List String) : Markers := ⟨none, paths, false⟩

/-- **Markers with more paths to be ignored.** -/
def ignoreAll (m : Markers) (paths : List String) : Markers := paths.foldl ignore m

/-- markers that ignore nothing -/
def sparing (m : Markers) : Markers := { m with ignored := [] }

theorem isIgnored_ignore (path : String) :
    (m.ignore path).isIgnored p = (decide (p.text = path) || m.isIgnored p) := by
  simp only [isIgnored, ignore, List.contains_eq_mem, Entries.mem_insertName, Bool.decide_or]

theorem isIgnored_ignoreAll (paths : List String) :
    (m.ignoreAll paths).isIgnored p = ((ignoring paths).isIgnored p || m.isIgnored p) := by
  induction paths generalizing m with
  | nil => rfl
  | cons path rest ih =>
    show ((m.ignore path).ignoreAll rest).isIgnored p = _
    rw [ih, isIgnored_ignore, ← Bool.or_assoc, Bool.or_comm ((ignoring rest).isIgnored p)]
    simp only [isIgnored, ignoring, List.contains_cons, Bool.or_assoc]
    rfl

theorem sparing_ignoreAll (paths : List String) : (m.ignoreAll paths).sparing = m.sparing := by
  induction paths generalizing m with
  | nil => rfl
  | cons path rest ih => exact ih (m := m.ignore path)

end Markers

/-! ### places and contents -/

namespace Value

mutual

/-- **The values at the end of a way of keys,** one for each element of the lists on the way. -/
def placed : List String → Value → List Value
  | [], v => [v]
  | k :: ks, .list items => placedItems (k :: ks) items
  | k :: ks, .object entries => placedEntries k ks entries
  | _ :: _, _ => []

def placedItems (ks : List String) : List Value → List Value
  | [] => []
  | v :: rest => placed ks v ++ placedItems ks rest

/-- the values at the end of a way whose first key is `k` -/
def placedEntries (k : String) (ks : List String) : List (String × Value) → List Value
  | [] => []
  | (name, v) :: rest => (if name = k then placed ks v else []) ++ placedEntries k ks rest

end

mutual

/-- **A value with other contents in the fields that are ignored,** each made of its path and what it
holds. -/
def refill (m : Markers) (content : FieldPath → Value → Value) (path : FieldPath) : Value → Value
  | .list items => .list (refillItems m content path items)
  | .object entries => .object (refillEntries m content path entries)
  | v => v

def refillItems (m : Markers) (content : FieldPath → Value → Value) (path : FieldPath) :
    List Value → List Value
  | [] => []
  | v :: rest => refill m content path v :: refillItems m content path rest

def refillEntries (m : Markers) (content : FieldPath → Value → Value) (path : FieldPath) :
    List (String × Value) → List (String × Value)
  | [] => []
  | (name, v) :: rest =>
    (name, if m.isIgnored (path.child name) then content (path.child name) v
      else refill m content (path.child name) v) :: refillEntries m content path rest

end

theorem placed_nil (v : Value) : v.placed [] = [v] := by
  cases v <;> rfl

theorem placed_list {ks : List String} (hks : ks ≠ []) (items : List Value) :
    (Value.list items).placed ks = placedItems ks items := by
  cases ks with
  | nil => exact absurd rfl hks
  | cons k ks => rfl

/-! ### what is left of a value -/

variable {m s u : Markers} {content : FieldPath → Value → Value}

theorem isNull_prune (m : Markers) (path : FieldPath) (v : Value) :
    (v.prune m path).isNull = v.isNull := by
  cases v <;> rfl

theorem isNull_refill (m : Markers) (path : FieldPath) (v : Value) :
    (v.refill m content path).isNull = v.isNull := by
  cases v <;> rfl

mutual

/-- **What is left in two steps** is what is left when both are taken at once. -/
theorem prune_prune (hu : ∀ p, u.isIgnored p = (s.isIgnored p || m.isIgnored p)) (path : FieldPath)
    (v : Value) : (v.prune s path).prune m path = v.prune u path := by
  match v with
  | .list items => exact congrArg Value.list (pruneItems_pruneItems hu path items)
  | .object entries => exact congrArg Value.object (pruneEntries_pruneEntries hu path entries)
  | .null | .bool _ | .int _ | .float _ | .str _ => rfl

theorem pruneItems_pruneItems (hu : ∀ p, u.isIgnored p = (s.isIgnored p || m.isIgnored p))
    (path : FieldPath) (items : List Value) :
    pruneItems m path (pruneItems s path items) = pruneItems u path items := by
  match items with
  | [] => rfl
  | v :: rest =>
    simp only [pruneItems]
    rw [prune_prune hu path v, pruneItems_pruneItems hu path rest]

theorem pruneEntries_pruneEntries (hu : ∀ p, u.isIgnored p = (s.isIgnored p || m.isIgnored p))
    (path : FieldPath) (entries : List (String × Value)) :
    pruneEntries m path (pruneEntries s path entries) = pruneEntries u path entries := by
  match entries with
  | [] => rfl
  | (name, v) :: rest =>
    have hrest := pruneEntries_pruneEntries hu path rest
    rw [pruneEntries, pruneEntries, hu]
    cases hs : s.isIgnored (path.child name) with
    | true => exact hrest
    | false =>
      cases hnull : v.isNull with
      | true =>
        simp only [Bool.or_true, if_true]
        exact hrest
      | false =>
        simp only [Bool.or_false, Bool.false_or, Bool.false_eq_true, if_false]
        rw [pruneEntries, isNull_prune, hnull, Bool.or_false, prune_prune hu, hrest]

end

mutual

/-- **The contents of the fields that are ignored** do not matter to what is left. -/
theorem prune_refill (path : FieldPath) (v : Value) :
    (v.refill m content path).prune m path = v.prune m path := by
  match v with
  | .list items => exact congrArg Value.list (pruneItems_refillItems path items)
  | .object entries => exact congrArg Value.object (pruneEntries_refillEntries path entries)
  | .null | .bool _ | .int _ | .float _ | .str _ => rfl

theorem pruneItems_refillItems (path : FieldPath) (items : List Value) :
    pruneItems m path (refillItems m content path items) = pruneItems m path items := by
  match items with
  | [] => rfl
  | v :: rest =>
    simp only [refillItems, pruneItems]
    rw [prune_refill path v, pruneItems_refillItems path rest]

theorem pruneEntries_refillEntries (path : FieldPath) (entries : List (String × Value)) :
    pruneEntries m path (refillEntries m content path entries) = pruneEntries m path entries := by
  match entries with
  | [] => rfl
  | (name, v) :: rest =>
    rw [refillEntries, pruneEntries, pruneEntries, pruneEntries_refillEntries path rest]
    cases hm : m.isIgnored (path.child name) with
    | true => rfl
    | false =>
      simp only [Bool.false_or, Bool.false_eq_true, if_false]
      rw [isNull_refill, prune_refill]

end

/-! ### the places of what is left -/

mutual

/-- **Only the paths of the fields that a value has** matter to what is left of it. -/
theorem prune_congr (path : FieldPath) (v : Value)
    (h : ∀ ks, ks ≠ [] → v.placed ks ≠ [] →
      m.isIgnored (path.descend ks) = u.isIgnored (path.descend ks)) :
    v.prune m path = v.prune u path := by
  match v with
  | .list items =>
    refine congrArg Value.list (pruneItems_congr path items fun ks hne hplaced => h ks hne ?_)
    rwa [placed_list hne]
  | .object entries =>
    exact congrArg Value.object (pruneEntries_congr path entries fun k ks hplaced =>
      h (k :: ks) (List.cons_ne_nil _ _) hplaced)
  | .null | .bool _ | .int _ | .float _ | .str _ => rfl

theorem pruneItems_congr (path : FieldPath) (items : List Value)
    (h : ∀ ks, ks ≠ [] → placedItems ks items ≠ [] →
      m.isIgnored (path.descend ks) = u.isIgnored (path.descend ks)) :
    pruneItems m path items = pruneItems u path items := by
  match items with
  | [] => rfl
  | v :: rest =>
    have hv := prune_congr path v fun ks hne hplaced =>
      h ks hne fun hnone => hplaced (List.append_eq_nil_iff.mp hnone).1
    have hrest := pruneItems_congr path rest fun ks hne hplaced =>
      h ks hne fun hnone => hplaced (List.append_eq_nil_iff.mp hnone).2
    rw [pruneItems, pruneItems, hv, hrest]

theorem pruneEntries_congr (path : FieldPath) (entries : List (String × Value))
    (h : ∀ k ks, placedEntries k ks entries ≠ [] →
      m.isIgnored (path.descend (k :: ks)) = u.isIgnored (path.descend (k :: ks))) :
    pruneEntries m path entries = pruneEntries u path entries := by
  match entries with
  | [] => rfl
  | (name, v) :: rest =>
    have hrest := pruneEntries_congr path rest fun k ks hplaced =>
      h k ks fun hnone => hplaced (List.append_eq_nil_iff.mp hnone).2
    have hbelow (ks : List String) (hplaced : v.placed ks ≠ []) :
        m.isIgnored ((path.child name).descend ks) = u.isIgnored ((path.child name).descend ks) := by
      refine h name ks fun hnone => hplaced ?_
      have hfirst := (List.append_eq_nil_iff.mp hnone).1
      rwa [if_pos rfl] at hfirst
    have hhere : m.isIgnored (path.child name) = u.isIgnored (path.child name) :=
      hbelow [] (placed_nil v ▸ List.cons_ne_nil _ _)
    have hv := prune_congr (path.child name) v fun ks _ => hbelow ks
    rw [pruneEntries, pruneEntries, hhere, hv, hrest]

end

mutual

/-- **No field that is left is null.** -/
theorem placed_prune_null (path : FieldPath) (v : Value) {ks : List String} (hks : ks ≠ []) :
    .null ∉ (v.prune m path).placed ks := by
  match v with
  | .list items =>
    rw [prune, placed_list hks]
    exact placedItems_prune_null path items hks
  | .object entries =>
    obtain ⟨k, ks, rfl⟩ := List.exists_cons_of_ne_nil hks
    exact placedEntries_prune_null path entries k ks
  | .null | .bool _ | .int _ | .float _ | .str _ =>
    obtain ⟨k, ks, rfl⟩ := List.exists_cons_of_ne_nil hks
    exact List.not_mem_nil

theorem placedItems_prune_null (path : FieldPath) (items : List Value) {ks : List String}
    (hks : ks ≠ []) : .null ∉ placedItems ks (pruneItems m path items) := by
  match items with
  | [] => exact List.not_mem_nil
  | v :: rest =>
    rw [pruneItems, placedItems, List.mem_append]
    exact not_or.mpr ⟨placed_prune_null path v hks, placedItems_prune_null path rest hks⟩

theorem placedEntries_prune_null (path : FieldPath) (entries : List (String × Value)) (k : String)
    (ks : List String) : .null ∉ placedEntries k ks (pruneEntries m path entries) := by
  match entries with
  | [] => exact List.not_mem_nil
  | (name, v) :: rest =>
    have hrest := placedEntries_prune_null path rest k ks
    rw [pruneEntries]
    split
    · exact hrest
    · rename_i hkept
      have hnull : v.isNull = false := by simpa using (not_or.mp (mt Bool.or_eq_true_iff.mpr hkept)).2
      have hhere : .null ∉ (v.prune m (path.child name)).placed ks := by
        by_cases hks : ks = []
        · rw [hks, placed_nil, List.mem_singleton]
          intro heq
          rw [← isNull_prune m (path.child name), ← heq] at hnull
          cases hnull
        · exact placed_prune_null _ v hks
      rw [placedEntries, List.mem_append]
      refine not_or.mpr ⟨?_, hrest⟩
      split
      · exact hhere
      · exact List.not_mem_nil

end

mutual

/-- **Nothing is left below a field that is ignored,** the field included. -/
theorem placed_prune_below (path : FieldPath) (v : Value) {ks : List String} (hks : ks ≠ [])
    (h : m.isIgnored (path.descend ks) = true) (more : List String) :
    (v.prune m path).placed (ks ++ more) = [] := by
  match v with
  | .list items =>
    rw [prune, placed_list (List.append_ne_nil_of_left_ne_nil hks more)]
    exact placedItems_prune_below path items hks h more
  | .object entries =>
    obtain ⟨k, ks, rfl⟩ := List.exists_cons_of_ne_nil hks
    exact placedEntries_prune_below path entries h more
  | .null | .bool _ | .int _ | .float _ | .str _ =>
    obtain ⟨k, ks, rfl⟩ := List.exists_cons_of_ne_nil hks
    rfl

theorem placedItems_prune_below (path : FieldPath) (items : List Value) {ks : List String}
    (hks : ks ≠ []) (h : m.isIgnored (path.descend ks) = true) (more : List String) :
    placedItems (ks ++ more) (pruneItems m path items) = [] := by
  match items with
  | [] => rfl
  | v :: rest =>
    rw [pruneItems, placedItems, placed_prune_below path v hks h,
      placedItems_prune_below path rest hks h]
    rfl

theorem placedEntries_prune_below (path : FieldPath) (entries : List (String × Value)) {k : String}
    {ks : List String} (h : m.isIgnored (path.descend (k :: ks)) = true) (more : List String) :
    placedEntries k (ks ++ more) (pruneEntries m path entries) = [] := by
  match entries with
  | [] => rfl
  | (name, v) :: rest =>
    have hrest := placedEntries_prune_below path rest h more
    rw [pruneEntries]
    split
    · exact hrest
    · rename_i hkept
      rw [placedEntries, hrest, List.append_nil]
      split
      · rename_i hname
        subst hname
        by_cases hks : ks = []
        · subst hks
          have hhere : m.isIgnored (path.child name) = true := h
          rw [hhere] at hkept
          exact absurd rfl hkept
        · exact placed_prune_below (path.child name) v hks h more
      · rfl

end

end Value

/-! ### arguments -/

section
variable {m : Markers} {argument : String}

mutual

/-- **The literal of a value is that of what is left of it,** with nothing to be ignored. -/
theorem ofValue_prune (path : FieldPath) (v : Value) :
    Literal.ofValue m.sparing argument path (v.prune m path) = Literal.ofValue m argument path v := by
  match v with
  | .list items =>
    rw [Value.prune, Literal.ofValue, Literal.ofValue, ofItems_prune path items]
  | .object entries =>
    rw [Value.prune, Literal.ofValue, Literal.ofValue, ofFields_prune path entries]
  | .null | .bool true | .bool false | .int _ | .float _ | .str _ => rfl

theorem ofItems_prune (path : FieldPath) (items : List Value) :
    Literal.ofItems m.sparing argument path (Value.pruneItems m path items) =
      Literal.ofItems m argument path items := by
  match items with
  | [] => rfl
  | v :: rest =>
    rw [Value.pruneItems, Literal.ofItems, Literal.ofItems, ofValue_prune path v,
      ofItems_prune path rest]

theorem ofFields_prune (path : FieldPath) (entries : List (String × Value)) :
    Literal.ofFields m.sparing argument path (Value.pruneEntries m path entries) =
      Literal.ofFields m argument path entries := by
  match entries with
  | [] => rfl
  | (name, v) :: rest =>
    have hrest := ofFields_prune path rest
    rw [Value.pruneEntries, Literal.ofFields]
    split
    · exact hrest
    · rename_i hkept
      have hnull : v.isNull = false := by simpa using (not_or.mp (mt Bool.or_eq_true_iff.mpr hkept)).2
      have hspared : m.sparing.isIgnored (path.child name) = false := rfl
      rw [Literal.ofFields, Value.isNull_prune, hspared, hnull, ofValue_prune _ v, hrest]
      rfl

end

/-- where all fields are null or ignored, none is written -/
theorem ofFields_of_gone {path : FieldPath} {entries : List (String × Value)}
    (h : ∀ e ∈ entries, m.isIgnored (path.child e.1) = true ∨ e.2.isNull = true) :
    Literal.ofFields m argument path entries = .ok [] := by
  induction entries with
  | nil => rfl
  | cons entry rest ih =>
    obtain ⟨name, v⟩ := entry
    obtain ⟨hgone, hrest⟩ := List.forall_mem_cons.mp h
    rw [Literal.ofFields, if_pos (Bool.or_eq_true_iff.mpr hgone)]
    exact ih hrest

end

namespace Variable

/-- **Only what is left of a value is written.** -/
theorem encode_congr {v w : Variable} (hname : v.name = w.name)
    (hmarkers : v.markers.sparing = w.markers.sparing)
    (hleft : v.value.prune v.markers .root = w.value.prune w.markers .root) :
    v.encode = w.encode := by
  have hargument : v.argumentName = w.argumentName := by
    have hother : v.markers.sparing.otherName = w.markers.sparing.otherName := by rw [hmarkers]
    show v.markers.sparing.otherName.getD v.name = w.markers.sparing.otherName.getD w.name
    rw [hother, hname]
  have hnull : v.value.isNull = w.value.isNull := by
    rw [← Value.isNull_prune v.markers .root, hleft, Value.isNull_prune]
  unfold encode
  rw [hnull, hargument, ← ofValue_prune (m := v.markers), hleft, hmarkers, ofValue_prune]

/-- **Ignoring is pruning.**  Of an argument with more paths to be ignored the same is written, or
the same number refused, as if its value lacked the fields under them.  So the literal is that of a
value without null fields; paths that no field has change nothing; what stands in a field that is
ignored does not matter, not even a number without a literal; an object whose fields all go is
written as an empty one; and below a field that is ignored nothing is left, whatever else is to be
ignored. -/
theorem encode_ignoreAll (v : Variable) (paths : List String) :
    let ignoring (w : Value) : Variable :=
      { v with value := w, markers := v.markers.ignoreAll paths }
    (ignoring v.value).encode =
      { v with value := v.value.prune (.ignoring paths) .root }.encode ∧
    ((∀ text, v.encode = .ok (some text) → text =
      v.argumentName ++ ": " ++ (v.value.prune v.markers .root).literal v.markers.raw) ∧
      ∀ ks, ks ≠ [] → .null ∉ (v.value.prune v.markers .root).placed ks) ∧
    ((∀ ks, ks ≠ [] → v.value.placed ks ≠ [] → (FieldPath.root.descend ks).text ∉ paths) →
      (ignoring v.value).encode = v.encode) ∧
    (∀ content, (ignoring (v.value.refill (.ignoring paths) content .root)).encode =
      (ignoring v.value).encode) ∧
    (∀ path entries,
      (∀ e ∈ entries, v.markers.isIgnored (path.child e.1) = true ∨ e.2.isNull = true) →
      Literal.ofValue v.markers v.argumentName path (.object entries) = .ok "\x7b\x7d") ∧
    ∀ ks more, ks ≠ [] → (FieldPath.root.descend ks).text ∈ paths →
      (v.value.prune (v.markers.ignoreAll paths) .root).placed (ks ++ more) = [] := by
  intro ignoring
  have hmarkers := Markers.sparing_ignoreAll (m := v.markers) paths
  have hboth (p : FieldPath) := Markers.isIgnored_ignoreAll (m := v.markers) (p := p) paths
  refine ⟨?_, ⟨?_, ?_⟩, ?_, ?_, ?_, ?_⟩
  · exact encode_congr rfl hmarkers (Value.prune_prune hboth .root v.value).symm
  · intro text htext
    rcases encode_cases htext with ⟨hnone, -⟩ | ⟨l, hl, htext, -⟩
    · cases hnone
    · cases htext
      rw [Literal.ofValue_eq_literal hl]
  · intro ks hks
    exact Value.placed_prune_null .root v.value hks
  · intro hnone
    refine encode_congr rfl hmarkers (Value.prune_congr .root v.value fun ks hks hplaced => ?_)
    have hout : (Markers.ignoring paths).isIgnored (FieldPath.root.descend ks) = false := by
      simpa [Markers.isIgnored, Markers.ignoring] using hnone ks hks hplaced
    rw [hboth, hout, Bool.false_or]
  · intro content
    refine encode_congr rfl rfl ?_
    show (v.value.refill (.ignoring paths) content .root).prune _ .root = v.value.prune _ .root
    -- the contents are under the paths of the first of the two steps, and go in it
    rw [← Value.prune_prune hboth, Value.prune_refill, Value.prune_prune hboth]
  · intro path entries hgo
    rw [Literal.ofValue, ofFields_of_gone hgo]
    rfl
  · intro ks more hks hpath
    have hin : (Markers.ignoring paths).isIgnored (FieldPath.root.descend ks) = true := by
      simpa [Markers.isIgnored, Markers.ignoring] using hpath
    refine Value.placed_prune_below .root v.value hks ?_ more
    rw [hboth, hin, Bool.true_or]

/-- A number without a literal, a null field and an element's field go, and with them all fields of
two objects; the null element stays. -/
theorem encode_ignoreAll_nested :
    let infinite : Value := .float ⟨false, 0x7FF0000000000000⟩
    let value : Value := .object [("a", .object [("x", infinite), ("y", .null)]),
      ("b", .list [.object [("c", .int 1), ("d", .int 2)], .null])]
    let v : Variable := ⟨"at", value, .scalar .any, ⟨none, ["b.d"], false⟩⟩
    let left : Value := .object [("a", .object []), ("b", .list [.object [("d", .int 2)], .null])]
    v.encode = .error ⟨"at", ⟨"a.x"⟩⟩ ∧
    v.value.prune (.ignoring ["a.x", "b.c"]) .root = left ∧
    { v with markers := v.markers.ignoreAll ["a.x", "b.c"] }.encode = { v with value := left }.encode ∧
    { v with value := left }.encode = .ok (some "at: \x7ba: \x7b\x7d, b: [\x7b\x7d, null]\x7d") ∧
    (value.prune (v.markers.ignoreAll ["a.x", "b.c"]) .root).placed ["b", "c"] = [] := by
  intro infinite value v left
  obtain ⟨hpruned, -, -, -, -, hbelow⟩ := encode_ignoreAll v ["a.x", "b.c"]
  have hleft : v.value.prune (.ignoring ["a.x", "b.c"]) .root = left := rfl
  have hgone := hbelow ["b", "c"] [] (List.cons_ne_nil _ _) (by decide)
  refine ⟨by decide +kernel, hleft, ?_, by decide +kernel, hgone⟩
  rw [← hleft]
  exact hpruned

end Variable

end GraphQLCall
