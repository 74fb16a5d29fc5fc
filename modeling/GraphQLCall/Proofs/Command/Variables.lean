import GraphQLCall.Command.Run
import GraphQLCall.Proofs.Json.Regular
import GraphQLCall.Proofs.Outcome

/-!
# The command: which data spells which arguments

An entry of a file of variables is an object with a name and a value, and with markers if it likes:
a marker that lacks is null, an empty list, or false.

* `Reading.flag_eq_ok_iff`, `Reading.texts_eq_ok_iff`   the data that is read as a flag, and as texts
* `read_of_setEntries`, `setEntries_ok`   a field of a record that is read from an object, and when
                                          it is read
* `Markers.read_eq_ok_iff`   the markers in an object
* `Json.SpellsVariable`, `readVariable_eq_some_iff`   the variable that an entry spells
* `readVariables_eq_some_iff`   those of a whole file
-/

namespace GraphQLCall

/-! ### readings -/

namespace Reading

theorem text_eq_ok_iff {j : Json} {s : String} : text j = .ok s ↔ j = .str s := by
  constructor
  · intro h
    cases j with
    | str s' =>
      cases h
      rfl
    | _ => cases h
  · rintro rfl
    rfl

theorem flag_eq_ok_iff {j : Json} {b : Bool} : flag j = .ok b ↔ j = .bool b := by
  constructor
  · intro h
    cases j with
    | bool b' =>
      cases h
      rfl
    | _ => cases h
  · rintro rfl
    rfl

theorem optionalText_eq_ok_iff {j : Json} {o : Option String} :
    optionalText j = .ok o ↔ j = o.elim .null .str := by
  constructor
  · intro h
    unfold optionalText at h
    split at h
    · cases h
      rfl
    · obtain ⟨s, hs, rfl⟩ := Outcome.map_eq_ok_iff.mp h
      exact text_eq_ok_iff.mp hs
  · rintro rfl
    cases o <;> rfl

theorem texts_eq_ok_iff {j : Json} {ss : List String} :
    list text j = .ok ss ↔ j = .arr (ss.map .str) := by
  have hitems (js : List Json) : Outcome.each text js = .ok ss ↔ js = ss.map .str := by
    simp only [Outcome.each_eq_ok_iff, text_eq_ok_iff]
    rw [← List.forall₂_eq_eq_eq, List.forall₂_map_right_iff]
  constructor
  · intro h
    unfold list at h
    split at h
    · rw [(hitems _).mp h]
    · cases h
  · rintro rfl
    exact (hitems _).mpr rfl

end Reading

/-! ### records -/

section
variable {α β : Type} {setters : List (Setter α)} {entries : List (String × Json)} {a a' : α}

/-- **A field of a record that is read from an object** is what its data is read as; data that lacks is
as good as data of the default. -/
theorem read_of_setEntries (get : α → β) {read : Json → Reading β} {key : String} {absent : Json}
    (hkey : key ∈ setters.map (·.key))
    (hset : ∀ s ∈ setters, ∀ a j a', s.set a j = .ok a' →
      if s.key = key then read j = .ok (get a') else get a' = get a)
    (hnodup : (entries.map Prod.fst).Nodup) (hdefault : read absent = .ok (get a))
    (h : setEntries setters a entries = .ok a') :
    read ((Entries.find? key entries).getD absent) = .ok (get a') := by
  induction entries generalizing a absent with
  | nil =>
    cases h
    exact hdefault
  | cons entry rest ih =>
    obtain ⟨k, content⟩ := entry
    obtain ⟨hk, hrest⟩ : k ∉ rest.map Prod.fst ∧ (rest.map Prod.fst).Nodup :=
      List.nodup_cons.mp hnodup
    rw [setEntries] at h
    split at h
    · rename_i hnone
      obtain ⟨s, hs, rfl⟩ := List.mem_map.mp hkey
      have hother : k ≠ s.key := by
        rintro rfl
        exact List.find?_eq_none.mp hnone s hs (decide_eq_true rfl)
      rw [Entries.find?, if_neg hother]
      exact ih hrest hdefault h
    · rename_i s hs
      have hmem : s ∈ setters := List.mem_of_find?_eq_some hs
      have hsk : s.key = k := by simpa using List.find?_some hs
      split at h
      · cases h
      · rename_i a₁ ha₁
        have hstep := hset s hmem a content a₁ ha₁
        rw [Entries.find?]
        by_cases heq : k = key
        · rw [if_pos (hsk.trans heq)] at hstep
          -- the names all differ, so no later entry sets the field again
          have habsent : Entries.find? key rest = none := by
            refine Entries.find?_eq_none_iff.mpr fun e he hname => hk ?_
            rw [heq, ← hname]
            exact List.mem_map_of_mem he
          have hlast := ih hrest hstep h
          rw [habsent] at hlast
          rw [if_pos heq]
          exact hlast
        · rw [if_neg (fun hs => heq (hsk.symm.trans hs))] at hstep
          rw [if_neg heq]
          exact ih hrest (hstep ▸ hdefault) h

/-- **A record is read from an object** if the data of all its fields that are there is read. -/
theorem setEntries_ok (hnodup : (entries.map Prod.fst).Nodup)
    (hset : ∀ s ∈ setters, ∀ j, Entries.find? s.key entries = some j →
      ∀ a, ∃ a', s.set a j = .ok a') : ∃ a', setEntries setters a entries = .ok a' := by
  induction entries generalizing a with
  | nil => exact ⟨a, rfl⟩
  | cons entry rest ih =>
    obtain ⟨k, content⟩ := entry
    obtain ⟨hk, hrest⟩ : k ∉ rest.map Prod.fst ∧ (rest.map Prod.fst).Nodup :=
      List.nodup_cons.mp hnodup
    have hlater : ∀ s ∈ setters, ∀ j, Entries.find? s.key rest = some j →
        ∀ a, ∃ a', s.set a j = .ok a' := by
      intro s hs j hj
      refine hset s hs j ?_
      have hother : k ≠ s.key := by
        intro heq
        exact hk (heq ▸ List.mem_map_of_mem (Entries.mem_of_find? hj))
      rwa [Entries.find?, if_neg hother]
    rw [setEntries]
    split
    · exact ih hrest hlater
    · rename_i s hs
      have hsk : s.key = k := by simpa using List.find?_some hs
      obtain ⟨a₁, ha₁⟩ := hset s (List.mem_of_find?_eq_some hs) content
        (by rw [Entries.find?, if_pos hsk.symm]) a
      rw [ha₁]
      exact ih hrest hlater

end

/-! ### markers -/

/-- the places to be ignored, in ascending order -/
def Reading.places (j : Json) : Reading (List String) :=
  (list text j).map fun ps => ps.foldl (fun all p => Entries.insertName p all) []

theorem Reading.places_eq_ok_iff {j : Json} {ignored : List String} :
    places j = .ok ignored ↔ ignored.Pairwise (· < ·) ∧
      ∃ paths : List String, j = .arr (paths.map .str) ∧ ∀ p, p ∈ ignored ↔ p ∈ paths := by
  rw [places, Outcome.map_eq_ok_iff]
  simp only [texts_eq_ok_iff, eq_comm (a := ignored), Entries.foldl_insertName_eq_iff]
  exact ⟨fun ⟨ps, hj, hascending, hmem⟩ => ⟨hascending, ps, hj, hmem⟩,
    fun ⟨hascending, ps, hj, hmem⟩ => ⟨ps, hj, hascending, hmem⟩⟩

namespace Markers

variable {entries : List (String × Json)} {m m' : Markers} {j : Json}

/-- **What an entry sets** of the markers. -/
theorem set_eq_ok {s : Setter Markers} (hs : s ∈ setters) (h : s.set m j = .ok m') :
    (s.key = "alias" ∧ Reading.optionalText j = .ok m'.otherName ∧
      m' = { m with otherName := m'.otherName }) ∨
    (s.key = "ignore" ∧ Reading.places j = .ok m'.ignored ∧
      m' = { m with ignored := m'.ignored }) ∨
    (s.key = "raw" ∧ Reading.flag j = .ok m'.raw ∧ m' = { m with raw := m'.raw }) := by
  rcases List.mem_cons.mp hs with rfl | hs
  · obtain ⟨o, ho, rfl⟩ := Outcome.map_eq_ok_iff.mp h
    exact .inl ⟨rfl, ho, rfl⟩
  rcases List.mem_cons.mp hs with rfl | hs
  · obtain ⟨ps, hps, rfl⟩ := Outcome.map_eq_ok_iff.mp h
    refine .inr (.inl ⟨rfl, ?_, rfl⟩)
    rw [Reading.places, hps]
    rfl
  · obtain rfl := List.mem_singleton.mp hs
    obtain ⟨b, hb, rfl⟩ := Outcome.map_eq_ok_iff.mp h
    exact .inr (.inr ⟨rfl, hb, rfl⟩)

/-- the data of each marker that is there is read -/
theorem read_eq_ok (hnodup : (entries.map Prod.fst).Nodup)
    (h : Markers.read (.obj entries) = .ok m) :
    Reading.optionalText ((Entries.find? "alias" entries).getD .null) = .ok m.otherName ∧
    Reading.places ((Entries.find? "ignore" entries).getD (.arr [])) = .ok m.ignored ∧
    Reading.flag ((Entries.find? "raw" entries).getD (.bool false)) = .ok m.raw := by
  refine ⟨read_of_setEntries otherName (by decide) ?_ hnodup rfl h,
    read_of_setEntries ignored (by decide) ?_ hnodup rfl h,
    read_of_setEntries raw (by decide) ?_ hnodup rfl h⟩
  all_goals
    intro s hs m j m' hset
    rcases set_eq_ok hs hset with ⟨hkey, hread, hsame⟩ | ⟨hkey, hread, hsame⟩ |
      ⟨hkey, hread, hsame⟩
    all_goals
      rw [hkey]
      first
      | rw [if_pos rfl]; exact hread
      | rw [if_neg (by decide), hsame]

theorem read_eq_ok_iff (hnodup : (entries.map Prod.fst).Nodup) :
    Markers.read (.obj entries) = .ok m ↔
      Reading.optionalText ((Entries.find? "alias" entries).getD .null) = .ok m.otherName ∧
      Reading.places ((Entries.find? "ignore" entries).getD (.arr [])) = .ok m.ignored ∧
      Reading.flag ((Entries.find? "raw" entries).getD (.bool false)) = .ok m.raw := by
  refine ⟨read_eq_ok hnodup, fun ⟨hother, hignored, hraw⟩ => ?_⟩
  have hset : ∀ s ∈ setters, ∀ j, Entries.find? s.key entries = some j →
      ∀ m, ∃ m', s.set m j = .ok m' := by
    intro s hs j hj m'
    rcases List.mem_cons.mp hs with rfl | hs
    · have hdata : Entries.find? "alias" entries = some j := hj
      rw [hdata] at hother
      exact ⟨_, Outcome.map_eq_ok_iff.mpr ⟨_, hother, rfl⟩⟩
    rcases List.mem_cons.mp hs with rfl | hs
    · have hdata : Entries.find? "ignore" entries = some j := hj
      rw [hdata] at hignored
      obtain ⟨ps, hps, -⟩ := Outcome.map_eq_ok_iff.mp hignored
      exact ⟨_, Outcome.map_eq_ok_iff.mpr ⟨ps, hps, rfl⟩⟩
    · obtain rfl := List.mem_singleton.mp hs
      have hdata : Entries.find? "raw" entries = some j := hj
      rw [hdata] at hraw
      exact ⟨_, Outcome.map_eq_ok_iff.mpr ⟨_, hraw, rfl⟩⟩
  obtain ⟨m', hm'⟩ : ∃ m', Markers.read (.obj entries) = .ok m' := setEntries_ok hnodup hset
  obtain ⟨hother', hignored', hraw'⟩ := read_eq_ok hnodup hm'
  have hsame : m' = m := by
    obtain ⟨o, ps, b⟩ := m
    obtain ⟨o', ps', b'⟩ := m'
    cases hother.symm.trans hother'
    cases hignored.symm.trans hignored'
    cases hraw.symm.trans hraw'
    rfl
  rw [hm', hsame]

end Markers

/-! ### variables -/

/-- **The variable that an entry of a file spells:** its name, its value with the shape that it has, and
its markers. -/
structure Json.SpellsVariable (j : Json) (v : Variable) : Prop where
  name : j.entry? "name" = some (.str v.name)
  value : ∃ content, j.entry? "value" = some content ∧ v.value = .ofJson content
  declared : v.declared = .ofValue v.value
  otherName : (j.entry? "alias").getD .null = v.markers.otherName.elim .null .str
  ascending : v.markers.ignored.Pairwise (· < ·)
  ignored : ∃ paths : List String, (j.entry? "ignore").getD (.arr []) = .arr (paths.map .str) ∧
    ∀ p, p ∈ v.markers.ignored ↔ p ∈ paths
  raw : (j.entry? "raw").getD (.bool false) = .bool v.markers.raw

/-- **What regular data spells** has finite numbers alone. -/
theorem Json.SpellsVariable.finite {j : Json} (hj : j.Regular) {v : Variable}
    (h : j.SpellsVariable v) : v.Finite := by
  obtain ⟨content, hcontent, hvalue⟩ := h.value
  intro p x hx
  rw [hvalue] at hx
  exact (hj.entry? hcontent).finite hx

namespace Command

/-- **Just the entries of variables are read,** each as what it spells. -/
theorem readVariable_eq_some_iff {j : Json} (hj : j.Regular) {v : Variable} :
    readVariable j = some v ↔ j.SpellsVariable v := by
  cases hj with
  | @obj entries hstrict _ =>
    have hmarkers := Markers.read_eq_ok_iff hstrict.nodup (m := v.markers)
    rw [Reading.optionalText_eq_ok_iff, Reading.places_eq_ok_iff, Reading.flag_eq_ok_iff] at hmarkers
    constructor
    · intro h
      simp only [readVariable, Option.bind_eq_bind, Option.bind_eq_some_iff] at h
      obtain ⟨_, ⟨⟩, h⟩ := h
      split at h
      · rename_i name hname
        simp only [Option.bind_some, Option.bind_eq_some_iff] at h
        obtain ⟨content, hcontent, m, hm, ⟨⟩⟩ := h
        have hread : Markers.read (.obj entries) = .ok m := by
          cases hr : Markers.read (.obj entries) with
          | error e =>
            rw [hr] at hm
            cases hm
          | ok m' =>
            rw [hr] at hm
            cases hm
            rfl
        obtain ⟨hother, ⟨hascending, hignored⟩, hraw⟩ := hmarkers.mp hread
        exact ⟨hname, ⟨content, hcontent, rfl⟩, rfl, hother, hascending, hignored, hraw⟩
      · cases h
    · intro h
      obtain ⟨name, value, declared, markers⟩ := v
      obtain ⟨content, hcontent, hvalue⟩ := h.value
      have hname : Entries.find? "name" entries = some (.str name) := h.name
      have hvalue' : Entries.find? "value" entries = some content := hcontent
      have hread := hmarkers.mpr ⟨h.otherName, ⟨h.ascending, h.ignored⟩, h.raw⟩
      have hdeclared : declared = .ofValue value := h.declared
      dsimp only at hvalue hread
      subst hvalue hdeclared
      simp only [readVariable, Option.bind_eq_bind, Option.bind_some, hname, hvalue', hread,
        Except.toOption]
      rfl
  | _ => exact ⟨nofun, fun h => absurd h.name nofun⟩

/-- **Just the files of variables are read,** each entry in its turn. -/
theorem readVariables_eq_some_iff {j : Json} (hj : j.Regular) {vs : List Variable} :
    readVariables j = some vs ↔
      ∃ items, j = .arr items ∧ List.Forall₂ Json.SpellsVariable items vs := by
  cases hj with
  | @arr items hitems =>
    have heach : items.mapM readVariable = some vs ↔
        List.Forall₂ Json.SpellsVariable items vs := by
      induction items generalizing vs with
      | nil => cases vs <;> simp [eq_comm]
      | cons item rest ih =>
        obtain ⟨hitem, hrest⟩ := List.forall_mem_cons.mp hitems
        rw [List.mapM_cons, List.forall₂_cons_left_iff]
        simp only [Option.bind_eq_bind, Option.bind_eq_some_iff, readVariable_eq_some_iff hitem,
          ih hrest]
        constructor
        · rintro ⟨v, hv, vs, hvs, ⟨⟩⟩
          exact ⟨v, vs, hv, hvs, rfl⟩
        · rintro ⟨v, vs, hv, hvs, rfl⟩
          exact ⟨v, hv, vs, hvs, rfl⟩
    rw [readVariables, heach]
    exact ⟨fun h => ⟨items, rfl, h⟩, fun ⟨_, heq, h⟩ => Json.arr.inj heq ▸ h⟩
  | _ => exact ⟨nofun, fun ⟨_, heq, _⟩ => nomatch heq⟩

end Command

end GraphQLCall
