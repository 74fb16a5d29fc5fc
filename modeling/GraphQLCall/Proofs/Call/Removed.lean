import GraphQLCall.Proofs.Call.Failure
import GraphQLCall.Proofs.Call.Pruned

/-!
# Calls: what one path excludes

Where names hold no points, a path is that of one way of names, and to ignore it is to remove the
field at the end of that way, with all it holds, and nothing else.

* `MatchesName.isPlain`   names are told apart in a path
* `Value.removeAt`   a value without the field at the end of a way of names
* `Value.prune_removeAt`   what is left of it
* `Value.prune_ignore`   to ignore a path is to remove its field
* `Value.placed_removeAt_below`, `Value.placed_removeAt_above`, `Value.placed_removeAt_beside`   what
  stands where in a value without a field
* `Variable.encode_ignore`   which fields of an argument one path excludes
-/

namespace GraphQLCall

open FieldPath (IsPlain)

/-- **Names are told apart in a path.** -/
theorem MatchesName.isPlain {name : String} (h : MatchesName name) : IsPlain name := by
  obtain ⟨first, rest, htext, hfirst, hrest⟩ := h
  have hstart : ¬ MatchesNameStart '.' := by
    rw [matchesNameStart_iff]
    decide
  have hlater : ¬ MatchesNameRest '.' := by
    rw [matchesNameRest_iff]
    decide
  refine ⟨?_, ?_⟩
  · rintro rfl
    cases htext
  · rw [htext, List.mem_cons, not_or]
    exact ⟨fun hpoint => hstart (hpoint ▸ hfirst), fun hpoint => hlater (hrest _ hpoint)⟩

namespace Value

/-! ### a value without a field -/

mutual

/-- **A value without the field at the end of a way of names,** in each element of the lists on the
way. -/
def removeAt : List String → Value → Value
  | k :: ks, .list items => .list (removeItems (k :: ks) items)
  | k :: ks, .object entries => .object (removeEntries k ks entries)
  | _, v => v

def removeItems (ks : List String) : List Value → List Value
  | [] => []
  | v :: rest => removeAt ks v :: removeItems ks rest

/-- entries without the field at the end of a way whose first name is `k` -/
def removeEntries (k : String) (ks : List String) : List (String × Value) → List (String × Value)
  | [] => []
  | (name, v) :: rest =>
    if name = k ∧ ks = [] then removeEntries k ks rest
    else (name, if name = k then removeAt ks v else v) :: removeEntries k ks rest

end

theorem removeAt_nil (v : Value) : v.removeAt [] = v := by
  cases v <;> rfl

theorem removeAt_list {ks : List String} (hks : ks ≠ []) (items : List Value) :
    (Value.list items).removeAt ks = .list (removeItems ks items) := by
  cases ks with
  | nil => exact absurd rfl hks
  | cons k ks => rfl

theorem isNull_removeAt (ks : List String) (v : Value) : (v.removeAt ks).isNull = v.isNull := by
  cases ks <;> cases v <;> rfl

/-! ### what is left of it -/

variable {m : Markers}

mutual

/-- **What is left of a value without a field** is what is left of the value, without the field. -/
theorem prune_removeAt (path : FieldPath) (ks : List String) (v : Value) :
    (v.removeAt ks).prune m path = (v.prune m path).removeAt ks := by
  match ks, v with
  | [], v => rw [removeAt_nil, removeAt_nil]
  | k :: ks, .list items => exact congrArg Value.list (pruneItems_removeItems path (k :: ks) items)
  | k :: ks, .object entries =>
    exact congrArg Value.object (pruneEntries_removeEntries path k ks entries)
  | _ :: _, .null | _ :: _, .bool _ | _ :: _, .int _ | _ :: _, .float _ | _ :: _, .str _ => rfl

theorem pruneItems_removeItems (path : FieldPath) (ks : List String) (items : List Value) :
    pruneItems m path (removeItems ks items) = removeItems ks (pruneItems m path items) := by
  match items with
  | [] => rfl
  | v :: rest =>
    simp only [removeItems, pruneItems]
    rw [prune_removeAt path ks v, pruneItems_removeItems path ks rest]

theorem pruneEntries_removeEntries (path : FieldPath) (k : String) (ks : List String)
    (entries : List (String × Value)) :
    pruneEntries m path (removeEntries k ks entries) =
      removeEntries k ks (pruneEntries m path entries) := by
  match entries with
  | [] => rfl
  | (name, v) :: rest =>
    have hrest := pruneEntries_removeEntries path k ks rest
    have hnull : (if name = k then removeAt ks v else v).isNull = v.isNull := by
      split
      · exact isNull_removeAt ks v
      · rfl
    have hv : (if name = k then removeAt ks v else v).prune m (path.child name) =
        if name = k then removeAt ks (v.prune m (path.child name))
        else v.prune m (path.child name) := by
      split
      · exact prune_removeAt (path.child name) ks v
      · rfl
    by_cases hend : name = k ∧ ks = []
    · rw [removeEntries, if_pos hend, hrest, pruneEntries]
      split
      · rfl
      · rw [removeEntries, if_pos hend]
    · rw [removeEntries, if_neg hend, pruneEntries, pruneEntries, hnull, hv, hrest]
      split
      · rfl
      · rw [removeEntries, if_neg hend]

end

/-! ### to ignore a path -/

mutual

/-- the names on the way to a place are names of the value -/
theorem forall_of_placed {P : String → Prop} {v : Value}
    (hv : v.EachObject fun names => ∀ n ∈ names, P n) {ks : List String} (h : v.placed ks ≠ []) :
    ∀ k ∈ ks, P k := by
  match ks, v with
  | [], v => exact fun k hk => absurd hk List.not_mem_nil
  | k :: ks, .list items => exact forall_of_placedItems hv h
  | k :: ks, .object entries => exact forall_of_placedEntries hv.1 hv.2 h
  | _ :: _, .null | _ :: _, .bool _ | _ :: _, .int _ | _ :: _, .float _ | _ :: _, .str _ =>
    exact absurd rfl h

theorem forall_of_placedItems {P : String → Prop} {items : List Value}
    (hitems : EachOfItems (fun names => ∀ n ∈ names, P n) items) {ks : List String}
    (h : placedItems ks items ≠ []) : ∀ k ∈ ks, P k := by
  match items with
  | [] => exact absurd rfl h
  | v :: rest =>
    by_cases hv : v.placed ks = []
    · refine forall_of_placedItems hitems.2 fun hrest => h ?_
      rw [placedItems, hv, hrest]
      rfl
    · exact forall_of_placed hitems.1 hv

theorem forall_of_placedEntries {P : String → Prop} {entries : List (String × Value)}
    (hnames : ∀ n ∈ entries.map Prod.fst, P n)
    (hentries : EachOfEntries (fun names => ∀ n ∈ names, P n) entries) {k : String}
    {ks : List String} (h : placedEntries k ks entries ≠ []) : ∀ n ∈ k :: ks, P n := by
  match entries with
  | [] => exact absurd rfl h
  | (name, v) :: rest =>
    obtain ⟨hname, hothers⟩ := List.forall_mem_cons.mp hnames
    by_cases hrest : placedEntries k ks rest = []
    · rw [placedEntries, hrest, List.append_nil] at h
      split at h
      · rename_i hk
        subst hk
        exact List.forall_mem_cons.mpr ⟨hname, forall_of_placed hentries.1 h⟩
      · exact absurd rfl h
    · exact forall_of_placedEntries hothers hentries.2 hrest

end

/-- a path of other names does not matter below the place where the names differ -/
theorem prune_ignore_beside {v : Value} (hv : v.EachObject fun names => ∀ n ∈ names, IsPlain n)
    {way ks : List String} (hway : ∀ n ∈ way, IsPlain n) (hks : ∀ n ∈ ks, IsPlain n)
    (hbeside : ¬ way <+: ks) :
    v.prune (m.ignore (FieldPath.root.descend ks).text) (.descend .root way) =
      v.prune m (.descend .root way) := by
  refine prune_congr _ v fun more _ hplaced => ?_
  have hmore : ∀ n ∈ more, IsPlain n := forall_of_placed hv hplaced
  have hboth : ∀ n ∈ way ++ more, IsPlain n := List.forall_mem_append.mpr ⟨hway, hmore⟩
  have hplace : (FieldPath.root.descend way).descend more = .descend .root (way ++ more) :=
    List.foldl_append.symm
  have hother : (FieldPath.root.descend (way ++ more)).text ≠ (FieldPath.root.descend ks).text := by
    intro htext
    have hsame := FieldPath.descend_injective hboth hks (congrArg FieldPath.mk htext)
    exact hbeside ⟨more, hsame⟩
  rw [hplace, Markers.isIgnored_ignore, decide_eq_false hother, Bool.false_or]

mutual

/-- **To ignore a path is to remove its field** from what is left. -/
theorem prune_ignore {v : Value} (hv : v.EachObject fun names => ∀ n ∈ names, IsPlain n)
    {way ks : List String} (hplain : ∀ n ∈ way ++ ks, IsPlain n) (hks : ks ≠ []) :
    v.prune (m.ignore (FieldPath.root.descend (way ++ ks)).text) (.descend .root way) =
      (v.prune m (.descend .root way)).removeAt ks := by
  match v with
  | .list items =>
    rw [prune, prune, removeAt_list hks, pruneItems_ignore hv hplain hks]
  | .object entries =>
    obtain ⟨k, ks, rfl⟩ := List.exists_cons_of_ne_nil hks
    exact congrArg Value.object (pruneEntries_ignore hv.1 hv.2 hplain)
  | .null | .bool _ | .int _ | .float _ | .str _ =>
    obtain ⟨k, ks, rfl⟩ := List.exists_cons_of_ne_nil hks
    rfl

theorem pruneItems_ignore {items : List Value}
    (hitems : EachOfItems (fun names => ∀ n ∈ names, IsPlain n) items) {way ks : List String}
    (hplain : ∀ n ∈ way ++ ks, IsPlain n) (hks : ks ≠ []) :
    pruneItems (m.ignore (FieldPath.root.descend (way ++ ks)).text) (.descend .root way) items =
      removeItems ks (pruneItems m (.descend .root way) items) := by
  match items with
  | [] => rfl
  | v :: rest =>
    rw [pruneItems, pruneItems, removeItems, prune_ignore hitems.1 hplain hks,
      pruneItems_ignore hitems.2 hplain hks]

theorem pruneEntries_ignore {entries : List (String × Value)}
    (hnames : ∀ n ∈ entries.map Prod.fst, IsPlain n)
    (hentries : EachOfEntries (fun names => ∀ n ∈ names, IsPlain n) entries) {way : List String}
    {k : String} {ks : List String} (hplain : ∀ n ∈ way ++ k :: ks, IsPlain n) :
    pruneEntries (m.ignore (FieldPath.root.descend (way ++ k :: ks)).text) (.descend .root way)
        entries =
      removeEntries k ks (pruneEntries m (.descend .root way) entries) := by
  match entries with
  | [] => rfl
  | (name, v) :: rest =>
    obtain ⟨hname, hothers⟩ := List.forall_mem_cons.mp hnames
    obtain ⟨hway, hrest⟩ := List.forall_mem_append.mp hplain
    have hhere : ∀ n ∈ way ++ [name], IsPlain n :=
      List.forall_mem_append.mpr ⟨hway, List.forall_mem_singleton.mpr hname⟩
    have hplace := FieldPath.descend_child .root way name
    have hend : (FieldPath.root.descend (way ++ [name])).text =
        (FieldPath.root.descend (way ++ k :: ks)).text ↔ name = k ∧ ks = [] := by
      constructor
      · intro htext
        have hsame := FieldPath.descend_injective hhere hplain (congrArg FieldPath.mk htext)
        obtain ⟨rfl, rfl⟩ := List.cons.inj (List.append_cancel_left hsame)
        exact ⟨rfl, rfl⟩
      · rintro ⟨rfl, rfl⟩
        rfl
    have hlater := pruneEntries_ignore hothers hentries.2 hplain
    rw [pruneEntries, pruneEntries, hplace, Markers.isIgnored_ignore, hlater]
    by_cases hlast : name = k ∧ ks = []
    · rw [decide_eq_true (hend.mpr hlast), Bool.true_or, Bool.true_or, if_pos rfl]
      split
      · rfl
      · rw [removeEntries, if_pos hlast]
    · have hv : v.prune (m.ignore (FieldPath.root.descend (way ++ k :: ks)).text)
            (.descend .root (way ++ [name])) =
          if name = k then (v.prune m (.descend .root (way ++ [name]))).removeAt ks
          else v.prune m (.descend .root (way ++ [name])) := by
        split
        · rename_i hk
          subst hk
          have hks : ks ≠ [] := fun hnil => hlast ⟨rfl, hnil⟩
          -- the name passes from the way ahead to the way behind; the path to be ignored stays
          have hsplit : way ++ name :: ks = (way ++ [name]) ++ ks := List.append_cons way name ks
          rw [hsplit] at hplain ⊢
          exact prune_ignore hentries.1 hplain hks
        · rename_i hk
          refine prune_ignore_beside hentries.1 hhere hplain ?_
          rintro ⟨more, hmore⟩
          rw [List.append_assoc] at hmore
          exact hk (List.cons.inj (List.append_cancel_left hmore)).1
      rw [decide_eq_false (mt hend.mp hlast), Bool.false_or, hv]
      split
      · rfl
      · rw [removeEntries, if_neg hlast]

end

/-! ### what stands where -/

mutual

/-- **Nothing stands at the end of the way or below.** -/
theorem placed_removeAt_below {ks : List String} (hks : ks ≠ []) (more : List String) (v : Value) :
    (v.removeAt ks).placed (ks ++ more) = [] := by
  obtain ⟨k, ks, rfl⟩ := List.exists_cons_of_ne_nil hks
  match v with
  | .list items => exact placedItems_removeItems_below hks more items
  | .object entries => exact placedEntries_removeEntries_below k ks more entries
  | .null | .bool _ | .int _ | .float _ | .str _ => rfl

theorem placedItems_removeItems_below {ks : List String} (hks : ks ≠ []) (more : List String)
    (items : List Value) : placedItems (ks ++ more) (removeItems ks items) = [] := by
  match items with
  | [] => rfl
  | v :: rest =>
    rw [removeItems, placedItems, placed_removeAt_below hks, placedItems_removeItems_below hks]
    rfl

theorem placedEntries_removeEntries_below (k : String) (ks more : List String)
    (entries : List (String × Value)) :
    placedEntries k (ks ++ more) (removeEntries k ks entries) = [] := by
  match entries with
  | [] => rfl
  | (name, v) :: rest =>
    have hrest := placedEntries_removeEntries_below k ks more rest
    rw [removeEntries]
    split
    · exact hrest
    · rename_i hend
      rw [placedEntries, hrest, List.append_nil]
      split
      · rename_i hk
        have hks : ks ≠ [] := fun hnil => hend ⟨hk, hnil⟩
        exact placed_removeAt_below hks more v
      · rfl

end

mutual

/-- **What stands on the way** lacks the field at the end of the rest of it. -/
theorem placed_removeAt_above (ks : List String) {rest : List String} (hrest : rest ≠ [])
    (v : Value) : (v.removeAt (ks ++ rest)).placed ks = (v.placed ks).map (removeAt rest) := by
  match ks, v with
  | [], v => rw [List.nil_append, placed_nil, placed_nil, List.map_singleton]
  | k :: ks, .list items => exact placedItems_removeItems_above (k :: ks) hrest items
  | k :: ks, .object entries => exact placedEntries_removeEntries_above k ks hrest entries
  | _ :: _, .null | _ :: _, .bool _ | _ :: _, .int _ | _ :: _, .float _ | _ :: _, .str _ => rfl

theorem placedItems_removeItems_above (ks : List String) {rest : List String} (hrest : rest ≠ [])
    (items : List Value) :
    placedItems ks (removeItems (ks ++ rest) items) =
      (placedItems ks items).map (removeAt rest) := by
  match items with
  | [] => rfl
  | v :: others =>
    rw [removeItems, placedItems, placedItems, placed_removeAt_above ks hrest,
      placedItems_removeItems_above ks hrest, List.map_append]

theorem placedEntries_removeEntries_above (k : String) (ks : List String) {rest : List String}
    (hrest : rest ≠ []) (entries : List (String × Value)) :
    placedEntries k ks (removeEntries k (ks ++ rest) entries) =
      (placedEntries k ks entries).map (removeAt rest) := by
  match entries with
  | [] => rfl
  | (name, v) :: others =>
    have hon : ¬ (name = k ∧ ks ++ rest = []) := fun hend =>
      List.append_ne_nil_of_right_ne_nil ks hrest hend.2
    rw [removeEntries, if_neg hon, placedEntries, placedEntries,
      placedEntries_removeEntries_above k ks hrest, List.map_append]
    split
    · rw [placed_removeAt_above ks hrest v]
    · rfl

end

mutual

/-- **What stands beside the way** is as it was. -/
theorem placed_removeAt_beside {ks ks' : List String} (hbelow : ¬ ks <+: ks')
    (habove : ¬ ks' <+: ks) (v : Value) : (v.removeAt ks).placed ks' = v.placed ks' := by
  match ks, ks', v with
  | [], ks', v => exact absurd List.nil_prefix hbelow
  | ks, [], v => exact absurd List.nil_prefix habove
  | k :: ks, k' :: ks', .list items => exact placedItems_removeItems_beside hbelow habove items
  | k :: ks, k' :: ks', .object entries =>
    exact placedEntries_removeEntries_beside hbelow habove entries
  | _ :: _, _ :: _, .null | _ :: _, _ :: _, .bool _ | _ :: _, _ :: _, .int _
  | _ :: _, _ :: _, .float _ | _ :: _, _ :: _, .str _ => rfl

theorem placedItems_removeItems_beside {ks ks' : List String} (hbelow : ¬ ks <+: ks')
    (habove : ¬ ks' <+: ks) (items : List Value) :
    placedItems ks' (removeItems ks items) = placedItems ks' items := by
  match items with
  | [] => rfl
  | v :: rest =>
    rw [removeItems, placedItems, placedItems, placed_removeAt_beside hbelow habove,
      placedItems_removeItems_beside hbelow habove]

theorem placedEntries_removeEntries_beside {k k' : String} {ks ks' : List String}
    (hbelow : ¬ k :: ks <+: k' :: ks') (habove : ¬ k' :: ks' <+: k :: ks)
    (entries : List (String × Value)) :
    placedEntries k' ks' (removeEntries k ks entries) = placedEntries k' ks' entries := by
  match entries with
  | [] => rfl
  | (name, v) :: rest =>
    have hrest := placedEntries_removeEntries_beside hbelow habove rest
    rw [removeEntries]
    split
    · rename_i hend
      obtain ⟨rfl, rfl⟩ := hend
      have hother : name ≠ k' := by
        rintro rfl
        exact hbelow (List.cons_prefix_cons.mpr ⟨rfl, List.nil_prefix⟩)
      rw [hrest, placedEntries, if_neg hother]
      rfl
    · rw [placedEntries, placedEntries, hrest]
      split
      · rename_i hk'
        split
        · rename_i hk
          subst hk hk'
          rw [placed_removeAt_beside (fun h => hbelow (List.cons_prefix_cons.mpr ⟨rfl, h⟩))
            (fun h => habove (List.cons_prefix_cons.mpr ⟨rfl, h⟩))]
        · rfl
      · rfl

end

/-! ### arguments -/

/-- no number is written for that a path is ignored -/
theorem WritesFloat.of_ignore {text : String} {path p : FieldPath} {v : Value} {x : Number.Double}
    (h : WritesFloat (m.ignore text) path v p x) : WritesFloat m path v p x := by
  induction h with
  | here path x => exact .here path x
  | item hmem _ ih => exact .item hmem ih
  | field hmem hkept hnull _ ih =>
    rw [Markers.isIgnored_ignore, Bool.or_eq_false_iff] at hkept
    exact .field hmem hkept.2 hnull ih

end Value

namespace Variable

/-- an argument that is written is still written when a path is ignored -/
theorem encode_ignore_ok {v : Variable} {text : String} (h : v.encode = .ok (some text))
    (path : String) :
    let ignoring : Variable := { v with markers := v.markers.ignore path }
    ignoring.encode = .ok (some (v.argumentName ++ ": " ++
      (v.value.prune ignoring.markers .root).literal v.markers.raw)) := by
  intro ignoring
  -- no number is written that was not, so none without a literal
  have hfinite : v.Finite := finite_iff.mpr ((firstOf_encode v).eq_ok_iff.mp ⟨_, h⟩)
  have hstill : ignoring.Finite := fun p x hx => hfinite p x hx.of_ignore
  obtain ⟨o, ho⟩ := (firstOf_encode ignoring).eq_ok_iff.mpr (finite_iff.mp hstill)
  have hnull : ¬ v.value.isNull = true := by
    intro hnull
    have hnone : v.encode = .ok none := if_pos hnull
    rw [hnone] at h
    cases h
  have hencode : ignoring.encode =
      (Literal.ofValue ignoring.markers v.argumentName .root v.value).map
        fun l => some (v.argumentName ++ ": " ++ l) := if_neg hnull
  rw [hencode] at ho ⊢
  obtain ⟨l, hl, -⟩ := Outcome.map_eq_ok_iff.mp ho
  rw [hl, Literal.ofValue_eq_literal hl]
  rfl

/-- **Which fields one path excludes.**  Two ways of names have the same path just if they have the
same join behind the empty names in front.  So ways of names without a point are told apart by their
paths, and are read off them.  Of an argument with such names alone, to ignore the path of such a way
removes the field at its end, in each element of the lists on the way: the same is written, or the
same number refused, as of the value without it; of what was written nothing is left at the end of
the way or below, what stands on the way lacks that field alone, and what stands beside the way is as
it was.  Any other path excludes nothing. -/
theorem encode_ignore :
    (∀ ks ks', FieldPath.root.descend ks = FieldPath.root.descend ks' ↔
      Text.join "." (ks.dropWhile (· = "")) = Text.join "." (ks'.dropWhile (· = ""))) ∧
    (∀ name, MatchesName name → IsPlain name) ∧
    (∀ ks, (∀ k ∈ ks, IsPlain k) → (FieldPath.root.descend ks).segments = ks ∧
      ∀ ks', (∀ k ∈ ks', IsPlain k) → FieldPath.root.descend ks = FieldPath.root.descend ks' →
        ks = ks') ∧
    ∀ v : Variable, (v.value.EachObject fun names => ∀ n ∈ names, IsPlain n) →
      let ignoring (path : String) : Variable := { v with markers := v.markers.ignore path }
      let written := v.value.prune v.markers .root
      (∀ ks, ks ≠ [] → (∀ k ∈ ks, IsPlain k) →
        let path := (FieldPath.root.descend ks).text
        (ignoring path).encode = { v with value := v.value.removeAt ks }.encode ∧
        v.value.prune (v.markers.ignore path) .root = written.removeAt ks ∧
        (∀ text, v.encode = .ok (some text) →
          text = v.argumentName ++ ": " ++ written.literal v.markers.raw ∧
          (ignoring path).encode = .ok (some (v.argumentName ++ ": " ++
            (written.removeAt ks).literal v.markers.raw))) ∧
        (∀ more, (written.removeAt ks).placed (ks ++ more) = []) ∧
        (∀ above rest, ks = above ++ rest → rest ≠ [] →
          (written.removeAt ks).placed above = (written.placed above).map (Value.removeAt rest)) ∧
        ∀ beside, ¬ ks <+: beside → ¬ beside <+: ks →
          (written.removeAt ks).placed beside = written.placed beside) ∧
      ∀ path, (∀ ks, ks ≠ [] → (∀ k ∈ ks, IsPlain k) → (FieldPath.root.descend ks).text ≠ path) →
        (ignoring path).encode = v.encode := by
  refine ⟨?_, ?_, ?_, ?_⟩
  · intro ks ks'
    rw [FieldPath.descend_root_eq, FieldPath.descend_root_eq]
    exact ⟨congrArg FieldPath.text, congrArg FieldPath.mk⟩
  · intro name hname
    exact hname.isPlain
  · intro ks hks
    exact ⟨FieldPath.segments_descend hks, fun ks' hks' => FieldPath.descend_injective hks hks'⟩
  · intro v hv ignoring written
    have hsparing (path : String) : (v.markers.ignore path).sparing = v.markers.sparing := rfl
    refine ⟨?_, ?_⟩
    · intro ks hks hplain path
      have hleft : v.value.prune (v.markers.ignore path) .root = written.removeAt ks := by
        show v.value.prune (v.markers.ignore (FieldPath.root.descend ([] ++ ks)).text)
          (.descend .root []) = _
        exact Value.prune_ignore hv hplain hks
      refine ⟨?_, hleft, ?_, ?_, ?_, ?_⟩
      · refine encode_congr rfl (hsparing path) ?_
        show v.value.prune (v.markers.ignore path) .root = (v.value.removeAt ks).prune v.markers .root
        rw [hleft, Value.prune_removeAt]
      · intro text htext
        rcases encode_cases htext with ⟨hnone, -⟩ | ⟨l, hl, hwritten, -⟩
        · cases hnone
        · cases hwritten
          have hstill : (ignoring path).encode = _ := encode_ignore_ok htext path
          rw [hstill, hleft, Literal.ofValue_eq_literal hl]
          exact ⟨rfl, rfl⟩
      · intro more
        exact Value.placed_removeAt_below hks more written
      · intro above rest hsplit hrest
        rw [hsplit]
        exact Value.placed_removeAt_above above hrest written
      · intro beside hbelow habove
        exact Value.placed_removeAt_beside hbelow habove written
    · intro path hnone
      refine encode_congr rfl (hsparing path) (Value.prune_congr .root v.value ?_)
      intro ks hks hplaced
      have hother := hnone ks hks (Value.forall_of_placed hv hplaced)
      show (v.markers.ignore path).isIgnored (FieldPath.root.descend ks) = v.markers.isIgnored _
      rw [Markers.isIgnored_ignore, decide_eq_false hother, Bool.false_or]

/-- In both elements of a list a field goes; the field of its name elsewhere stays. -/
theorem encode_ignore_elements :
    let point (x : Int) : Value := .object [("x", .int x), ("y", .null)]
    let item (x : Int) : Value := .object [("at", point x)]
    let v : Variable := .plain "in" (.object [("at", point 0), ("list", .list [item 2, item 3])])
      (.scalar .any)
    let written : Value := .object [("at", .object [("x", .int 0)]), ("list", .list
      [.object [("at", .object [("x", .int 2)])], .object [("at", .object [("x", .int 3)])]])]
    (FieldPath.root.descend ["list", "at", "x"]).segments = ["list", "at", "x"] ∧
    v.value.prune v.markers .root = written ∧
    { v with markers := v.markers.ignore "list.at.x" }.encode =
      .ok (some "in: \x7bat: \x7bx: 0\x7d, list: [\x7bat: \x7b\x7d\x7d, \x7bat: \x7b\x7d\x7d]\x7d") ∧
    (written.removeAt ["list", "at", "x"]).placed ["at"] = [.object [("x", .int 0)]] ∧
    { v with markers := v.markers.ignore ".at" }.encode = v.encode ∧
    IsPlain "list" := by
  intro point item v written
  obtain ⟨-, hnames, hread, hexcluded⟩ := encode_ignore
  have hpoint (x : Int) : (point x).EachObject fun names => ∀ n ∈ names, IsPlain n :=
    ⟨show ∀ n ∈ ["x", "y"], IsPlain n by decide, trivial, trivial, trivial⟩
  have hitem (x : Int) : (item x).EachObject fun names => ∀ n ∈ names, IsPlain n :=
    ⟨show ∀ n ∈ ["at"], IsPlain n by decide, hpoint x, trivial⟩
  have hvalue : v.value.EachObject fun names => ∀ n ∈ names, IsPlain n :=
    ⟨by decide, hpoint 0, ⟨hitem 2, hitem 3, trivial⟩, trivial⟩
  have hks : ∀ k ∈ ["list", "at", "x"], IsPlain k := by decide
  obtain ⟨hfields, hothers⟩ := hexcluded v hvalue
  obtain ⟨-, -, hstill, -, -, hbeside⟩ := hfields ["list", "at", "x"] (by decide) hks
  have hencode : v.encode = .ok (some
      "in: \x7bat: \x7bx: 0\x7d, list: [\x7bat: \x7bx: 2\x7d\x7d, \x7bat: \x7bx: 3\x7d\x7d]\x7d") := by
    decide +kernel
  have hwritten : v.value.prune v.markers .root = written := rfl
  have hremoved := (hstill _ hencode).2
  refine ⟨(hread _ hks).1, hwritten, hremoved.trans (by decide +kernel), ?_, ?_, ?_⟩
  · exact (hbeside ["at"] (by decide) (by decide)).trans rfl
  · refine hothers ".at" fun ks hks hplain htext => ?_
    have hread : (⟨".at"⟩ : FieldPath).segments = ks := by
      rw [← htext]
      exact FieldPath.segments_descend hplain
    have hat : ks = ["at"] := hread.symm.trans (by decide)
    subst hat
    exact absurd htext (by decide)
  · exact hnames "list" (matchesName_iff.mpr (by decide))

end Variable

end GraphQLCall
