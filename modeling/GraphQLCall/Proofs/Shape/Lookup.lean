import GraphQLCall.Proofs.Entries
import GraphQLCall.Proofs.Text.Utf8
import GraphQLCall.Shape.Basic

/-!
# Shapes: the field with a name

An object puts its fields in order, and a field is looked for by halving.  This finds a field just if
there is one with the name, as a search from the first field to the last would.

* `Entries.StableSort`   a list in order, by the octets of the names
* `Entries.stableSort_iff`   there is one such list
* `lastNotAbove_eq`   where halving ends
* `field?_append`, `field?_eq_getLast?`   the field that is found
* `Shape.field?_record`   the fields of an object, and the one that is found under a name
-/

namespace GraphQLCall

variable {α : Type}

/-! ### order -/

namespace Entries

variable {entries sorted : List (String × α)}

/-- **A list in ascending order of the octets of the names,** the entries of one name in the order
given. -/
structure StableSort (entries sorted : List (String × α)) : Prop where
  perm : sorted.Perm entries
  ascending : sorted.Pairwise fun e f => ¬ Utf8.octets f.1 < Utf8.octets e.1
  stable : ∀ name, sorted.filter (fun e => e.1 = name) = entries.filter (fun e => e.1 = name)

theorem ascending_octets_iff :
    (sorted.Pairwise fun e f => ¬ Utf8.octets f.1 < Utf8.octets e.1) ↔ Ascending sorted := by
  simp only [Utf8.octets_lt_iff, not_lt]
  exact Iff.rfl

/-- **There is one list in order.** -/
theorem stableSort_iff : StableSort entries sorted ↔ sorted = sort entries := by
  constructor
  · intro h
    have hsorted : Ascending sorted := ascending_octets_iff.mp h.ascending
    refine hsorted.ext (ascending_sort entries) fun name => ?_
    rw [h.stable, filter_sort]
  · rintro rfl
    exact ⟨sort_perm entries, ascending_octets_iff.mpr (ascending_sort entries),
      fun name => filter_sort name entries⟩

end Entries

/-! ### halving -/

/-- **Halving ends at the last place whose name is not above `name`,** if the names at the first
`reach` places are not and those behind them are. -/
theorem lastNotAbove_eq {fields : Array (String × α)} {name : String} {reach : Nat}
    (hreach : ∀ i f, fields[i]? = some f → (name < f.1 ↔ reach ≤ i)) (base size : Nat)
    (hbase : base ≤ reach - 1) (hsize : reach ≤ base + size) (hfields : base + size ≤ fields.size) :
    lastNotAbove fields name base size = reach - 1 := by
  -- the place that is looked for stays among the `size` ones from `base` on
  fun_induction lastNotAbove fields name base size with
  | case1 base size hone => omega
  | case2 base size hmany half middle f hf habove ih =>
    have hlow : reach ≤ middle := (hreach middle f hf).mp habove
    exact ih hbase (by omega) (by omega)
  | case3 base size hmany half middle f hf hnot ih =>
    have hhigh : ¬ reach ≤ middle := mt (hreach middle f hf).mpr hnot
    exact ih (by omega) (by omega) (by omega)
  | case4 base size hmany half middle hnone =>
    have hout : fields.size ≤ middle := Array.getElem?_eq_none_iff.mp hnone
    omega

/-- **Where some fields are not above a name and all those behind them are,** the last of the former
is looked at. -/
theorem field?_append {fields above : List (String × α)} {name : String}
    (hfields : ∀ f ∈ fields, ¬ name < f.1) (habove : ∀ f ∈ above, name < f.1) :
    field? (fields ++ above) name = fields.getLast?.filter fun f => f.1 = name := by
  have hreach (i : Nat) (f : String × α) (hf : (fields ++ above).toArray[i]? = some f) :
      name < f.1 ↔ fields.length ≤ i := by
    rw [List.getElem?_toArray] at hf
    by_cases hi : i < fields.length
    · rw [List.getElem?_append_left hi] at hf
      exact iff_of_false (hfields f (List.mem_of_getElem? hf)) (Nat.not_le.mpr hi)
    · rw [List.getElem?_append_right (Nat.le_of_not_lt hi)] at hf
      exact iff_of_true (habove f (List.mem_of_getElem? hf)) (Nat.le_of_not_lt hi)
  have hat := lastNotAbove_eq hreach 0 (fields ++ above).toArray.size (Nat.zero_le _) (by simp)
    (by simp)
  unfold field?
  dsimp only
  rw [hat, List.getElem?_toArray]
  rcases List.eq_nil_or_concat fields with rfl | ⟨init, f, rfl⟩
  · -- the first of those above is looked at, and it has another name
    cases above with
    | nil => rfl
    | cons f rest => exact if_neg (ne_of_gt (habove f List.mem_cons_self))
  · simp [Option.filter]

/-- **Of fields in ascending order** the last one with a name is found. -/
theorem field?_eq_getLast? {fields : List (String × α)} (h : Entries.Ascending fields)
    (name : String) : field? fields name = (fields.filter fun f => f.1 = name).getLast? := by
  have hlow : ∀ f ∈ fields.filter (fun f => f.1 < name), f.1 < name := fun f hf =>
    of_decide_eq_true (List.mem_filter.mp hf).2
  have hsame : ∀ f ∈ fields.filter (fun f => f.1 = name), f.1 = name := fun f hf =>
    of_decide_eq_true (List.mem_filter.mp hf).2
  have hhigh : ∀ f ∈ fields.filter (fun f => name < f.1), name < f.1 := fun f hf =>
    of_decide_eq_true (List.mem_filter.mp hf).2
  have hreach : ∀ f ∈ fields.filter (fun f => f.1 < name) ++ fields.filter (fun f => f.1 = name),
      ¬ name < f.1 := by
    intro f hf
    rcases List.mem_append.mp hf with hf | hf
    · exact lt_asymm (hlow f hf)
    · exact hsame f hf ▸ lt_irrefl _
  conv_lhs => rw [h.split name]
  rw [← List.append_assoc, field?_append hreach hhigh, List.getLast?_append]
  cases hlast : (fields.filter fun f => f.1 = name).getLast? with
  | none =>
    rw [Option.none_or, Option.filter_eq_none_iff]
    intro f hf
    exact mt of_decide_eq_true (ne_of_lt (hlow f (List.mem_of_getLast? hf)))
  | some f =>
    exact Option.filter_some_pos (decide_eq_true (hsame f (List.mem_of_getLast? hlast)))

/-! ### objects -/

namespace Shape

variable {fields : List (String × Shape)} {name : String}

theorem mem_of_field?_sort {f : String × Shape} (h : field? (Entries.sort fields) name = some f) :
    f ∈ fields ∧ f.1 = name := by
  rw [field?_eq_getLast? (Entries.ascending_sort fields), Entries.filter_sort] at h
  obtain ⟨hin, hname⟩ := List.mem_filter.mp (List.mem_of_getLast? h)
  exact ⟨hin, of_decide_eq_true hname⟩

theorem exists_field?_sort_iff :
    (∃ f, field? (Entries.sort fields) name = some f) ↔ ∃ f ∈ fields, f.1 = name := by
  constructor
  · rintro ⟨f, hf⟩
    exact ⟨f, mem_of_field?_sort hf⟩
  · rintro ⟨f, hin, hname⟩
    have hne : (fields.filter fun f => f.1 = name) ≠ [] :=
      List.ne_nil_of_mem (List.mem_filter.mpr ⟨hin, decide_eq_true hname⟩)
    rw [field?_eq_getLast? (Entries.ascending_sort fields), Entries.filter_sort]
    exact ⟨_, List.getLast?_eq_some_getLast hne⟩

/-- **Where all names differ,** halving finds what a search from the front finds. -/
theorem field?_sort_eq_find? (h : (fields.map Prod.fst).Nodup) :
    field? (Entries.sort fields) name = fields.find? fun f => f.1 = name := by
  cases hfind : fields.find? fun f => f.1 = name with
  | none =>
    have hno : ¬ ∃ f ∈ fields, f.1 = name := by
      rintro ⟨f, hin, hname⟩
      exact List.find?_eq_none.mp hfind f hin (decide_eq_true hname)
    refine Option.eq_none_iff_forall_ne_some.mpr fun f hf => hno ?_
    exact ⟨f, mem_of_field?_sort hf⟩
  | some f =>
    have hin : f ∈ fields := List.mem_of_find?_eq_some hfind
    have hname : f.1 = name := by simpa using List.find?_some hfind
    obtain ⟨g, hg⟩ := exists_field?_sort_iff.mpr ⟨f, hin, hname⟩
    obtain ⟨hgin, hgname⟩ := mem_of_field?_sort hg
    rw [hg, List.inj_on_of_nodup_map h hgin hin (hgname.trans hname.symm)]

/-- **An object has its fields in order,** by the octets of the names, those of one name as they were
given.  Under a name a field is found just if there is one, and what is found is a field of that name;
where all names differ it is the one that a search through the fields as given finds. -/
theorem field?_record (typeName : Option String) (fields : List (String × Shape)) :
    ∃ sorted, record typeName fields = .object typeName sorted ∧
      (∀ es, Entries.StableSort fields es ↔ es = sorted) ∧
      ∀ name,
        ((∃ f, field? sorted name = some f) ↔ ∃ f ∈ fields, f.1 = name) ∧
        (∀ f, field? sorted name = some f → f ∈ sorted ∧ f.1 = name) ∧
        ((fields.map Prod.fst).Nodup →
          field? sorted name = fields.find? fun f => f.1 = name) := by
  refine ⟨Entries.sort fields, rfl, fun es => Entries.stableSort_iff, fun name => ?_⟩
  refine ⟨exists_field?_sort_iff, fun f hf => ?_, field?_sort_eq_find?⟩
  obtain ⟨hin, hname⟩ := mem_of_field?_sort hf
  exact ⟨Entries.mem_sort.mpr hin, hname⟩

/-- Two fields of one name stay in the order given, and one of them is found; among fields of other
names each is found under its own. -/
theorem field?_record_alike :
    let alike : List (String × Shape) := [("é", .scalar .int), ("id", .deferred .text),
      ("Z", .scalar .any), ("id", .scalar .id)]
    let sorted : List (String × Shape) := [("Z", .scalar .any), ("id", .deferred .text),
      ("id", .scalar .id), ("é", .scalar .int)]
    let apart : List (String × Shape) := [("é", .scalar .int), ("id", .deferred .text),
      ("Z", .scalar .any)]
    (record none alike = .object none sorted ∧ Entries.StableSort alike sorted ∧
      ∃ f ∈ sorted, field? sorted "id" = some f ∧ f.1 = "id") ∧
    (apart.map Prod.fst).Nodup ∧
    ∃ sorted, record (some "Beer") apart = .object (some "Beer") sorted ∧
      field? sorted "id" = some ("id", .deferred .text) ∧ field? sorted "i" = none := by
  intro alike sorted apart
  have halike : record none alike = .object none sorted := by
    have hsorted : Entries.Ascending sorted := by
      unfold Entries.Ascending
      decide
    have hsort : Entries.sort alike = sorted := by
      refine (Entries.ascending_sort alike).ext hsorted fun name => ?_
      rw [Entries.filter_sort]
      by_cases hid : "id" = name
      · subst hid
        rfl
      by_cases he : "é" = name
      · subst he
        rfl
      · simp [alike, sorted, List.filter_cons, hid, he]
    rw [record, hsort]
  have hapart : (apart.map Prod.fst).Nodup := by decide
  obtain ⟨sorted', hobject, hsorted, hfound⟩ := field?_record none alike
  obtain rfl : sorted = sorted' := by
    rw [halike] at hobject
    exact (Shape.object.inj hobject).2
  obtain ⟨hsome, hin, -⟩ := hfound "id"
  have hid : ("id", .deferred .text) ∈ alike := List.mem_cons_of_mem _ List.mem_cons_self
  obtain ⟨f, hf⟩ := hsome.mpr ⟨("id", .deferred .text), hid, rfl⟩
  obtain ⟨beer, hbeer, -, hfind⟩ := field?_record (some "Beer") apart
  have hstable : Entries.StableSort alike sorted := (hsorted sorted).mpr rfl
  obtain ⟨hmem, hname⟩ := hin f hf
  refine ⟨⟨halike, hstable, f, hmem, hf, hname⟩, hapart, beer, hbeer, ?_, ?_⟩
  · exact (hfind "id").2.2 hapart
  · exact (hfind "i").2.2 hapart

end Shape

end GraphQLCall
