import GraphQLCall.Entries
import Mathlib.Data.List.Forall2
import Mathlib.Data.List.Nodup
import Mathlib.Data.String.Basic

/-!
# Entries: the order of names

* `Entries.Ascending`   names in ascending order, those of one name next to each other
* `Entries.ascending_sort`   all entries in ascending order of name are so
* `Entries.forall₂_sort`   entries that are related one by one are so in order
* `Entries.filter_sort`, `Entries.Ascending.ext`   the entries of one name stay in the order given; the
                                                 entries of each name determine the list
* `Entries.Ascending.split`   what stands below a name, under it and above it
* `Entries.find?_ofList`   what an object that a list of entries spells has under a name
* `Entries.Strict`, `Entries.Strict.ext`   names in strictly ascending order; the members determine the
                                           list
* `Entries.Strict.sort_eq`, `Entries.Strict.sort_eq_of_perm`   they stay as they are in order
* `Entries.strict_ofList`, `Entries.ofList_eq_sort`   the object that a list of entries spells
* `Entries.sort_congr`, `Entries.ofList_congr`   where all names differ, the order of the list does not
                                                 matter
* `Entries.mem_insertName`, `Entries.ascending_insertName`   one more name in a list of distinct names
* `Entries.foldl_insertName_eq_iff`   the distinct names of a list
-/

namespace GraphQLCall.Entries

variable {α β : Type}

/-- **Names in ascending order.** -/
def Ascending (entries : List (String × α)) : Prop := entries.Pairwise fun e f => e.1 ≤ f.1

theorem mem_sort {x : String × α} {entries : List (String × α)} : x ∈ sort entries ↔ x ∈ entries :=
  List.mem_mergeSort

theorem sort_perm (entries : List (String × α)) : (sort entries).Perm entries :=
  List.mergeSort_perm entries _

theorem nameLe_iff {e f : String × α} : nameLe e f = true ↔ e.1 ≤ f.1 := decide_eq_true_iff

theorem nameLe_trans (e f g : String × α) (hef : nameLe e f = true) (hfg : nameLe f g = true) :
    nameLe e g = true :=
  nameLe_iff.mpr (le_trans (nameLe_iff.mp hef) (nameLe_iff.mp hfg))

theorem nameLe_total (e f : String × α) : (nameLe e f || nameLe f e) = true := by
  rw [Bool.or_eq_true, nameLe_iff, nameLe_iff]
  exact le_total e.1 f.1

/-- **All entries in ascending order of name** are so. -/
theorem ascending_sort (entries : List (String × α)) : Ascending (sort entries) :=
  (List.pairwise_mergeSort nameLe_trans nameLe_total entries).imp nameLe_iff.mp

/-- **Entries that are related one by one,** each to one of its name, are so in order. -/
theorem forall₂_sort {R : String × α → String × β → Prop} {es : List (String × α)}
    {fs : List (String × β)} (hname : ∀ e f, R e f → e.1 = f.1) (h : List.Forall₂ R es fs) :
    List.Forall₂ R (sort es) (sort fs) := by
  obtain ⟨hlength, hR⟩ := List.forall₂_iff_zip.mp h
  -- both lists are in the order of the pairs, by the name that the two of a pair share
  have hes : sort es = ((es.zip fs).mergeSort fun p q => nameLe p.1 q.1).map Prod.fst := by
    rw [List.map_mergeSort (s := nameLe), List.map_fst_zip hlength.le, sort]
    exact fun _ _ _ _ => rfl
  have hfs : sort fs = ((es.zip fs).mergeSort fun p q => nameLe p.1 q.1).map Prod.snd := by
    rw [List.map_mergeSort (s := nameLe), List.map_snd_zip hlength.ge, sort]
    intro p hp q hq
    rw [nameLe, nameLe, hname _ _ (hR hp), hname _ _ (hR hq)]
  rw [hes, hfs, List.forall₂_map_left_iff, List.forall₂_map_right_iff, List.forall₂_same]
  exact fun p hp => hR (List.mem_mergeSort.mp hp)

/-- **The entries of one name** stay in the order given. -/
theorem filter_sort (name : String) (entries : List (String × α)) :
    (sort entries).filter (fun x => x.1 = name) = entries.filter (fun x => x.1 = name) := by
  have hsame : (entries.filter fun x => x.1 = name).Pairwise fun e f => nameLe e f = true := by
    refine List.pairwise_of_forall_mem_list fun e he f hf => nameLe_iff.mpr ?_
    rw [of_decide_eq_true (List.mem_filter.mp he).2, of_decide_eq_true (List.mem_filter.mp hf).2]
  have hsub := List.sublist_mergeSort nameLe_trans nameLe_total hsame List.filter_sublist
  have hfilter := hsub.filter fun x => decide (x.1 = name)
  simp only [List.filter_filter, Bool.and_self] at hfilter
  have hlength := ((sort_perm entries).filter fun x => decide (x.1 = name)).length_eq
  exact (hfilter.eq_of_length hlength.symm).symm

section
variable {es fs : List (String × α)}

theorem mem_iff_of_filter_eq {x : String × α}
    (h : ∀ name, es.filter (fun x => x.1 = name) = fs.filter (fun x => x.1 = name)) :
    x ∈ es ↔ x ∈ fs := by
  have hx : x ∈ es.filter (fun y => y.1 = x.1) ↔ x ∈ fs.filter (fun y => y.1 = x.1) := by rw [h]
  simpa using hx

theorem Ascending.head_le {e f : String × α} (h : Ascending (e :: es)) (hf : f ∈ e :: es) :
    e.1 ≤ f.1 := by
  rcases List.mem_cons.mp hf with rfl | hf
  · exact le_refl _
  · exact (List.pairwise_cons.mp h).1 f hf

/-- **The entries of each name determine the list** whose names ascend. -/
theorem Ascending.ext (hes : Ascending es) (hfs : Ascending fs)
    (h : ∀ name, es.filter (fun x => x.1 = name) = fs.filter (fun x => x.1 = name)) : es = fs := by
  induction es generalizing fs with
  | nil =>
    have hnone (x : String × α) : x ∉ fs := fun hx =>
      List.not_mem_nil ((mem_iff_of_filter_eq h).mpr hx)
    exact (List.eq_nil_iff_forall_not_mem.mpr hnone).symm
  | cons e es ih =>
    have he : e ∈ fs := (mem_iff_of_filter_eq h).mp List.mem_cons_self
    obtain ⟨f, fs, rfl⟩ := List.exists_cons_of_ne_nil (List.ne_nil_of_mem he)
    have hf : f ∈ e :: es := (mem_iff_of_filter_eq h).mpr List.mem_cons_self
    have hname : e.1 = f.1 := le_antisymm (hes.head_le hf) (hfs.head_le he)
    -- the first entry is the first of its name on both sides
    have hhead : e = f := by
      have hfirst := h f.1
      simp only [List.filter_cons, hname, decide_true, if_true] at hfirst
      exact (List.cons.inj hfirst).1
    subst hhead
    have hrest (name : String) :
        es.filter (fun x => x.1 = name) = fs.filter (fun x => x.1 = name) := by
      have hall := h name
      rw [List.filter_cons, List.filter_cons] at hall
      split at hall
      · exact (List.cons.inj hall).2
      · exact hall
    rw [ih (List.pairwise_cons.mp hes).2 (List.pairwise_cons.mp hfs).2 hrest]

end

theorem find?_map_values (g : α → β) (name : String) (entries : List (String × α)) :
    find? name (entries.map fun e => (e.1, g e.2)) = (find? name entries).map g := by
  induction entries with
  | nil => rfl
  | cons entry rest ih =>
    obtain ⟨n, a⟩ := entry
    rw [List.map_cons, find?, find?, ih]
    split <;> rfl

theorem Ascending.map_values {entries : List (String × α)} (h : Ascending entries) (g : α → β) :
    Ascending (entries.map fun e => (e.1, g e.2)) :=
  List.pairwise_map.mpr h

/-- **Names in ascending order** are those below a name, that name, and those above it. -/
theorem Ascending.split {entries : List (String × α)} (h : Ascending entries)
    (name : String) : entries = entries.filter (fun e => e.1 < name) ++
      (entries.filter (fun e => e.1 = name) ++ entries.filter fun e => name < e.1) := by
  induction entries with
  | nil => rfl
  | cons e rest ih =>
    obtain ⟨hle, hrest⟩ := List.pairwise_cons.mp h
    have hrest := ih hrest
    have hnone : ¬ e.1 < name → rest.filter (fun e => e.1 < name) = [] := by
      intro hlow
      refine List.filter_eq_nil_iff.mpr fun x hx hlt => hlow ?_
      exact lt_of_le_of_lt (hle x hx) (of_decide_eq_true hlt)
    rcases lt_trichotomy e.1 name with hlt | heq | hgt
    · simp only [List.filter_cons, hlt, decide_true, if_true, ne_of_lt hlt, not_lt_of_gt hlt,
        decide_false, Bool.false_eq_true, if_false, List.cons_append]
      rw [← hrest]
    · have hlow : ¬ e.1 < name := heq ▸ lt_irrefl _
      rw [hnone hlow, List.nil_append] at hrest
      simp only [List.filter_cons, heq, decide_true, if_true, decide_false,
        Bool.false_eq_true, if_false, hnone hlow, List.nil_append, List.cons_append, lt_irrefl]
      rw [← hrest]
    · have hlow : ¬ e.1 < name := lt_asymm hgt
      have hsame : rest.filter (fun e => e.1 = name) = [] := by
        refine List.filter_eq_nil_iff.mpr fun x hx heq => ?_
        have hx := hle x hx
        rw [of_decide_eq_true heq] at hx
        exact not_lt_of_ge hx hgt
      rw [hnone hlow, hsame, List.nil_append, List.nil_append] at hrest
      simp only [List.filter_cons, hlow, ne_of_gt hgt, hgt, decide_true, if_true, decide_false,
        Bool.false_eq_true, if_false, hnone hlow, hsame, List.nil_append]
      rw [← hrest]

/-! ### the object that a list of entries spells -/

theorem find?_insert (name key : String) (value : α) (entries : List (String × α)) :
    find? key (insert name value entries) = if name = key then some value else find? key entries := by
  induction entries with
  | nil => simp only [insert, find?]
  | cons entry rest ih =>
    obtain ⟨n, v⟩ := entry
    rw [insert]
    split
    · rw [find?]
    split
    · rename_i hn
      subst hn
      rw [find?, find?]
      split <;> rfl
    · rename_i hn
      rw [find?, ih, find?]
      by_cases hkey : n = key
      · subst hkey
        rw [if_pos rfl, if_neg hn, if_pos rfl]
      · rw [if_neg hkey, if_neg hkey]

theorem find?_append (key : String) (entries more : List (String × α)) :
    find? key (entries ++ more) = (find? key entries).or (find? key more) := by
  induction entries with
  | nil => rfl
  | cons entry rest ih =>
    obtain ⟨n, v⟩ := entry
    rw [List.cons_append, find?, find?]
    split
    · rfl
    · exact ih

/-- **What an object that a list of entries spells has under a name** is the last of the list. -/
theorem find?_ofList (key : String) (entries : List (String × α)) :
    find? key (ofList entries) = find? key entries.reverse := by
  suffices h : ∀ es, find? key (entries.foldl (fun es e => insert e.1 e.2 es) es) =
      (find? key entries.reverse).or (find? key es) by
    rw [ofList, h [], find?, Option.or_none]
  intro es
  induction entries generalizing es with
  | nil => rfl
  | cons entry rest ih =>
    obtain ⟨n, v⟩ := entry
    rw [List.foldl_cons, ih, List.reverse_cons, find?_append, Option.or_assoc, find?_insert, find?]
    split <;> rfl

/-- **Of names that are all different** it does not matter which one is found first. -/
theorem find?_eq_some_iff_of_nodup {key : String} {value : α} {entries : List (String × α)}
    (h : (entries.map Prod.fst).Nodup) :
    find? key entries = some value ↔ (key, value) ∈ entries := by
  refine ⟨mem_of_find?, fun hmem => ?_⟩
  cases hfind : find? key entries with
  | none => exact absurd rfl (find?_eq_none_iff.mp hfind _ hmem)
  | some value' =>
    have heq := List.inj_on_of_nodup_map h (mem_of_find? hfind) hmem rfl
    rw [(Prod.mk.inj heq).2]

/-! ### names that are all different -/

/-- **Names in strictly ascending order.** -/
def Strict (entries : List (String × α)) : Prop := entries.Pairwise fun e f => e.1 < f.1

instance (entries : List (String × α)) : Decidable (Strict entries) :=
  inferInstanceAs (Decidable (entries.Pairwise _))

section
variable {entries es fs : List (String × α)} {e : String × α}

theorem Strict.nodup (h : Strict entries) : (entries.map Prod.fst).Nodup :=
  List.pairwise_map.mpr (h.imp fun hlt => ne_of_lt hlt)

theorem Strict.names (h : Strict entries) : (entries.map Prod.fst).Pairwise (· < ·) :=
  List.pairwise_map.mpr h

/-- **The members determine the list.** -/
theorem Strict.ext (hes : Strict es) (hfs : Strict fs) (h : ∀ e, e ∈ es ↔ e ∈ fs) : es = fs := by
  have hperm : es.Perm fs :=
    (List.perm_ext_iff_of_nodup hes.nodup.of_map hfs.nodup.of_map).mpr h
  refine hperm.eq_of_pairwise (fun e f _ _ hlt hgt => ?_) hes hfs
  exact absurd hlt (lt_asymm hgt)

theorem strict_of_ascending (h : Ascending entries) (hnodup : (entries.map Prod.fst).Nodup) :
    Strict entries := by
  have hne : entries.Pairwise fun e f => e.1 ≠ f.1 := List.pairwise_map.mp hnodup
  exact (h.and hne).imp fun hboth => lt_of_le_of_ne hboth.1 hboth.2

theorem strict_sort (h : (entries.map Prod.fst).Nodup) : Strict (sort entries) := by
  have hnodup : ((sort entries).map Prod.fst).Nodup :=
    ((sort_perm entries).map Prod.fst).nodup_iff.mpr h
  exact strict_of_ascending (ascending_sort entries) hnodup

/-- names in strictly ascending order stay as they are -/
theorem Strict.sort_eq (h : Strict entries) : sort entries = entries :=
  List.mergeSort_of_pairwise (h.imp fun hlt => nameLe_iff.mpr (le_of_lt hlt))

theorem mem_insert {name : String} {value : α} (h : e ∈ insert name value entries) :
    e = (name, value) ∨ e ∈ entries := by
  induction entries with
  | nil => exact .inl (List.mem_singleton.mp h)
  | cons f rest ih =>
    obtain ⟨n, v⟩ := f
    rw [insert] at h
    split at h
    · exact List.mem_cons.mp h
    split at h
    · exact (List.mem_cons.mp h).imp_right (List.mem_cons_of_mem _)
    · rcases List.mem_cons.mp h with rfl | h
      · exact .inr List.mem_cons_self
      · exact (ih h).imp_right (List.mem_cons_of_mem _)

theorem Strict.insert (h : Strict entries) (name : String) (value : α) :
    Strict (insert name value entries) := by
  induction entries with
  | nil => exact List.pairwise_singleton _ _
  | cons f rest ih =>
    obtain ⟨n, v⟩ := f
    obtain ⟨hf, hrest⟩ := List.pairwise_cons.mp h
    rw [Entries.insert]
    split
    · rename_i hlt
      refine List.pairwise_cons.mpr ⟨fun x hx => ?_, h⟩
      rcases List.mem_cons.mp hx with rfl | hx
      · exact hlt
      · exact lt_trans hlt (hf x hx)
    split
    · rename_i heq
      refine List.pairwise_cons.mpr ⟨fun x hx => ?_, hrest⟩
      rw [heq]
      exact hf x hx
    · rename_i hle hne
      refine List.pairwise_cons.mpr ⟨fun x hx => ?_, ih hrest⟩
      rcases mem_insert hx with rfl | hx
      · exact lt_of_le_of_ne (not_lt.mp hle) (Ne.symm hne)
      · exact hf x hx

/-- **The object that a list of entries spells** has its names in strictly ascending order. -/
theorem strict_ofList (entries : List (String × α)) : Strict (ofList entries) := by
  suffices h : ∀ es, Strict es → Strict (entries.foldl (fun es e => insert e.1 e.2 es) es) from
    h [] .nil
  induction entries with
  | nil => exact fun es hes => hes
  | cons e rest ih => exact fun es hes => ih _ (hes.insert e.1 e.2)

theorem mem_of_mem_ofList (h : e ∈ ofList entries) : e ∈ entries := by
  have hfind := (find?_eq_some_iff_of_nodup (strict_ofList entries).nodup).mpr h
  rw [find?_ofList] at hfind
  exact List.mem_reverse.mp (mem_of_find? hfind)

theorem mem_ofList_iff (h : (entries.map Prod.fst).Nodup) : e ∈ ofList entries ↔ e ∈ entries := by
  have hback : (entries.reverse.map Prod.fst).Nodup := by
    rw [List.map_reverse]
    exact List.nodup_reverse.mpr h
  rw [← find?_eq_some_iff_of_nodup (strict_ofList entries).nodup, find?_ofList,
    find?_eq_some_iff_of_nodup hback, List.mem_reverse]

/-- **Where all names differ,** the object that a list of entries spells has them all. -/
theorem ofList_eq_sort (h : (entries.map Prod.fst).Nodup) : ofList entries = sort entries := by
  refine (strict_ofList entries).ext (strict_sort h) fun e => ?_
  rw [mem_ofList_iff h, mem_sort]

/-- **Where all names differ,** the order of a list does not matter to its sorting. -/
theorem sort_congr (h : (es.map Prod.fst).Nodup) (hperm : es.Perm fs) : sort es = sort fs := by
  have hnodup : (fs.map Prod.fst).Nodup := (hperm.map Prod.fst).nodup_iff.mp h
  refine (strict_sort h).ext (strict_sort hnodup) fun e => ?_
  rw [mem_sort, mem_sort]
  exact hperm.mem_iff

/-- names in strictly ascending order are the order of the list in any other order -/
theorem Strict.sort_eq_of_perm (h : Strict es) (hperm : fs.Perm es) : sort fs = es := by
  rw [← sort_congr h.nodup hperm.symm, h.sort_eq]

/-- **Where all names differ,** the order of a list does not matter to the object that it spells. -/
theorem ofList_congr (h : (es.map Prod.fst).Nodup) (hperm : es.Perm fs) :
    ofList es = ofList fs := by
  rw [ofList_eq_sort h, ofList_eq_sort ((hperm.map Prod.fst).nodup_iff.mp h), sort_congr h hperm]

end

/-! ### distinct names in ascending order -/

theorem mem_insertName {name n : String} {names : List String} :
    n ∈ insertName name names ↔ n = name ∨ n ∈ names := by
  induction names with
  | nil => exact List.mem_cons
  | cons m rest ih =>
    rw [insertName]
    split
    · exact List.mem_cons
    split
    · rename_i heq
      subst heq
      rw [List.mem_cons, or_self_left]
    · rw [List.mem_cons, ih, List.mem_cons]
      exact or_left_comm

theorem ascending_insertName (name : String) {names : List String}
    (h : names.Pairwise (· < ·)) : (insertName name names).Pairwise (· < ·) := by
  induction names with
  | nil => exact List.pairwise_singleton _ _
  | cons m rest ih =>
    obtain ⟨hm, hrest⟩ := List.pairwise_cons.mp h
    rw [insertName]
    split
    · rename_i hlt
      refine List.pairwise_cons.mpr ⟨fun n hn => ?_, h⟩
      rcases List.mem_cons.mp hn with rfl | hn
      · exact hlt
      · exact lt_trans hlt (hm n hn)
    split
    · exact h
    · rename_i hle hne
      refine List.pairwise_cons.mpr ⟨fun n hn => ?_, ih hrest⟩
      rcases mem_insertName.mp hn with rfl | hn
      · exact lt_of_le_of_ne (not_lt.mp hle) (Ne.symm hne)
      · exact hm n hn

/-- **The distinct names of a list,** in ascending order. -/
theorem foldl_insertName_eq_iff {names all : List String} :
    names.foldl (fun all name => insertName name all) [] = all ↔
      all.Pairwise (· < ·) ∧ ∀ n, n ∈ all ↔ n ∈ names := by
  have hfold (start : List String) (hstart : start.Pairwise (· < ·)) :
      (names.foldl (fun all name => insertName name all) start).Pairwise (· < ·) ∧
        ∀ n, n ∈ names.foldl (fun all name => insertName name all) start ↔
          n ∈ start ∨ n ∈ names := by
    induction names generalizing start with
    | nil => exact ⟨hstart, fun n => (or_iff_left List.not_mem_nil).symm⟩
    | cons name rest ih =>
      obtain ⟨hascending, hmem⟩ := ih _ (ascending_insertName name hstart)
      refine ⟨hascending, fun n => ?_⟩
      rw [List.foldl_cons, hmem, mem_insertName, List.mem_cons, or_comm (a := n = name), or_assoc]
  obtain ⟨hascending, hmem⟩ := hfold [] .nil
  constructor
  · rintro rfl
    exact ⟨hascending, fun n => (hmem n).trans (or_iff_right List.not_mem_nil)⟩
  · rintro ⟨hall, hsame⟩
    have hboth (n : String) :
        n ∈ names.foldl (fun all name => insertName name all) [] ↔ n ∈ all :=
      (hmem n).trans ((or_iff_right List.not_mem_nil).trans (hsame n).symm)
    have hperm := (List.perm_ext_iff_of_nodup (hascending.imp ne_of_lt) (hall.imp ne_of_lt)).mpr hboth
    exact hperm.eq_of_pairwise (fun m n _ _ hlt hgt => absurd hlt (lt_asymm hgt)) hascending hall

end GraphQLCall.Entries
