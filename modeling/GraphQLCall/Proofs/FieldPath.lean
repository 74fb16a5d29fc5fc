import GraphQLCall.FieldPath
import GraphQLCall.Text.Join

/-!
# Field paths: the names on a way

A walk makes the path of a place one name at a time; a message shows the names joined.

* `FieldPath.descend`   the path of the place that a way of names leads to
* `FieldPath.descend_eq`   below a place the names follow its path, each behind a point
* `FieldPath.descend_root`   from the whole, a way of names that are not empty is their join
* `FieldPath.shown_join`   the same as a message shows it
* `FieldPath.descend_root_eq`   a way of any names is the join of what stands behind the empty names in
                                front
* `FieldPath.IsPlain`   the names that are told apart in a path
* `FieldPath.segments_descend`   the names on a way are read off its path
* `FieldPath.descend_child`   a way with one more name
-/

namespace GraphQLCall

namespace FieldPath

/-- the path of the place that a way of names leads to -/
def descend (p : FieldPath) (names : List String) : FieldPath := names.foldl child p

theorem descend_cons (p : FieldPath) (name : String) (names : List String) :
    p.descend (name :: names) = (p.child name).descend names := rfl

theorem child_root (name : String) : root.child name = ⟨name⟩ := rfl

theorem child_of_ne {p : FieldPath} (h : p.text ≠ "") (name : String) :
    p.child name = ⟨p.text ++ "." ++ name⟩ := by
  have hr : p.isRoot = false := decide_eq_false h
  unfold child
  rw [hr]
  rfl

theorem text_child_ne {p : FieldPath} (h : p.text ≠ "") (name : String) :
    (p.child name).text ≠ "" := by
  rw [child_of_ne h]
  simp

/-- below a place that is not the whole, the names follow its path, each behind a point -/
theorem descend_eq {p : FieldPath} (h : p.text ≠ "") (names : List String) :
    p.descend names = ⟨Text.join "." (p.text :: names)⟩ := by
  induction names generalizing p with
  | nil => rfl
  | cons name names ih =>
    rw [descend_cons, ih (text_child_ne h name), child_of_ne h]
    cases names with
    | nil => rfl
    | cons other rest =>
      rw [Text.join_cons_cons, Text.join_cons_cons, Text.join_cons_cons]
      simp only [String.append_assoc]

/-- **From the whole, a way of names that are not empty is their join.** -/
theorem descend_root {names : List String} (h : ∀ n ∈ names, n ≠ "") :
    root.descend names = ⟨Text.join "." names⟩ := by
  cases names with
  | nil => rfl
  | cons name names =>
    rw [descend_cons, child_root, descend_eq (h name List.mem_cons_self)]

theorem join_ne_empty {names : List String} (h : ∀ n ∈ names, n ≠ "") (hne : names ≠ []) :
    Text.join "." names ≠ "" := by
  cases names with
  | nil => exact absurd rfl hne
  | cons name names =>
    have hn := h name List.mem_cons_self
    cases names with
    | nil => exact hn
    | cons other rest =>
      rw [Text.join_cons_cons]
      simp

/-- the place of the whole is shown by a word of its own -/
theorem shown_join {names : List String} (h : ∀ n ∈ names, n ≠ "") :
    (⟨Text.join "." names⟩ : FieldPath).shown
      = if names = [] then "<root>" else Text.join "." names := by
  by_cases hne : names = []
  · rw [hne]
    rfl
  · rw [if_neg hne]
    have hr : isRoot ⟨Text.join "." names⟩ = false := decide_eq_false (join_ne_empty h hne)
    unfold shown
    rw [hr]
    rfl

/-! ### what a path says of a way -/

/-- **From the whole,** a way is the join of its names without the empty ones in front. -/
theorem descend_root_eq (names : List String) :
    root.descend names = ⟨Text.join "." (names.dropWhile (· = ""))⟩ := by
  induction names with
  | nil => rfl
  | cons name names ih =>
    rw [descend_cons, child_root, List.dropWhile_cons]
    by_cases hname : name = ""
    · subst hname
      rw [if_pos (decide_eq_true rfl)]
      exact ih
    · have hstop : ¬ decide (name = "") = true := mt of_decide_eq_true hname
      rw [if_neg hstop, descend_eq hname]

/-- **A name that is told apart in a path:** it is not empty, and no point is in it. -/
def IsPlain (name : String) : Prop := name ≠ "" ∧ '.' ∉ name.toList

instance (name : String) : Decidable (IsPlain name) := inferInstanceAs (Decidable (_ ∧ _))

theorem splitAtPoints_last (part : List Char) {cs : List Char} (h : '.' ∉ cs) :
    splitAtPoints part cs = [part.reverse ++ cs] := by
  induction cs generalizing part with
  | nil => rw [splitAtPoints, List.append_nil]
  | cons c cs ih =>
    obtain ⟨hc, hcs⟩ := not_or.mp (mt List.mem_cons.mpr h)
    rw [splitAtPoints, if_neg (Ne.symm hc), ih (c :: part) hcs, List.reverse_cons,
      List.append_assoc]
    rfl

theorem splitAtPoints_point (part : List Char) {cs : List Char} (h : '.' ∉ cs)
    (rest : List Char) :
    splitAtPoints part (cs ++ '.' :: rest) = (part.reverse ++ cs) :: splitAtPoints [] rest := by
  induction cs generalizing part with
  | nil => rw [List.nil_append, splitAtPoints, if_pos rfl, List.append_nil]
  | cons c cs ih =>
    obtain ⟨hc, hcs⟩ := not_or.mp (mt List.mem_cons.mpr h)
    rw [List.cons_append, splitAtPoints, if_neg (Ne.symm hc), ih (c :: part) hcs,
      List.reverse_cons, List.append_assoc]
    rfl

theorem splitAtPoints_join {name : String} {names : List String}
    (h : ∀ n ∈ name :: names, IsPlain n) :
    splitAtPoints [] (Text.join "." (name :: names)).toList = (name :: names).map String.toList := by
  induction names generalizing name with
  | nil => exact splitAtPoints_last [] (h name List.mem_cons_self).2
  | cons other names ih =>
    have hname : '.' ∉ name.toList := (h name List.mem_cons_self).2
    have htext : (Text.join "." (name :: other :: names)).toList =
        name.toList ++ '.' :: (Text.join "." (other :: names)).toList := by
      rw [Text.join_cons_cons, String.toList_append, String.toList_append, List.append_assoc]
      rfl
    rw [htext, splitAtPoints_point [] hname, ih (List.forall_mem_cons.mp h).2]
    rfl

/-- **The names on a way are read off its path,** if they are told apart in it. -/
theorem segments_descend {names : List String} (h : ∀ n ∈ names, IsPlain n) :
    (root.descend names).segments = names := by
  cases names with
  | nil => rfl
  | cons name names =>
    have hne : ∀ n ∈ name :: names, n ≠ "" := fun n hn => (h n hn).1
    have hkept : ((name :: names).map String.toList).filter (· ≠ []) =
        (name :: names).map String.toList := by
      refine List.filter_eq_self.mpr fun cs hcs => ?_
      obtain ⟨n, hn, rfl⟩ := List.mem_map.mp hcs
      refine decide_eq_true fun hnil => hne n hn ?_
      rw [← String.ofList_toList (s := n), hnil]
    rw [descend_root hne]
    show ((splitAtPoints [] (Text.join "." (name :: names)).toList).filter (· ≠ [])).map
      String.ofList = _
    rw [splitAtPoints_join h, hkept, List.map_map]
    refine (List.map_congr_left fun n _ => ?_).trans (List.map_id _)
    exact String.ofList_toList

theorem descend_injective {names names' : List String} (h : ∀ n ∈ names, IsPlain n)
    (h' : ∀ n ∈ names', IsPlain n) (heq : root.descend names = root.descend names') :
    names = names' := by
  rw [← segments_descend h, heq, segments_descend h']

theorem descend_child (p : FieldPath) (names : List String) (name : String) :
    (p.descend names).child name = p.descend (names ++ [name]) := by
  rw [descend, descend, List.foldl_append]
  rfl

end FieldPath

end GraphQLCall
