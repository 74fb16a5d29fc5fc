import GraphQLCall.Json.Reader
import GraphQLCall.Proofs.Call.NonFinite
import GraphQLCall.Proofs.Entries
import GraphQLCall.Proofs.Json.Parts
import GraphQLCall.Proofs.Number.Rounding

/-!
# JSON: what the reader makes

The reader makes no data but regular data: its integers fit 64 bits, its numbers are finite, and the
entries of its objects stand in strictly ascending order of name.  What the reader holds while it
reads is as regular as that, and each of its moves keeps it so.

* `Json.Regular`   regular data
* `Json.State.Regular`   what the reader holds
* `Json.step_regular`, `Json.run_regular`   the reader's moves
* `Json.parse_regular`   the reader makes regular data
* `Json.Regular.finite`   a value of regular data has finite numbers alone
-/

namespace GraphQLCall

open Number

namespace Json

/-- **Regular data.** -/
inductive Regular : Json → Prop
  | null : Regular .null
  | bool (b : Bool) : Regular (.bool b)
  | int {n : Int} : leastInt ≤ n → n ≤ greatestNat → Regular (.int n)
  | float {x : Double} : x.isFinite = true → Regular (.float x)
  | str (s : String) : Regular (.str s)
  | arr {items : List Json} : (∀ j ∈ items, Regular j) → Regular (.arr items)
  | obj {entries : List (String × Json)} : Entries.Strict entries → (∀ e ∈ entries, Regular e.2) →
      Regular (.obj entries)

/-! ### what the reader holds -/

/-- an open container holds regular data -/
def Frame.Regular : Frame → Prop
  | .array items => ∀ j ∈ items, j.Regular
  | .object entries | .member entries _ => Json.Regular (.obj entries)

/-- the data that a place brings with it is regular -/
def Place.Regular : Place → Prop
  | .finished j | .word _ j => j.Regular
  | _ => True

/-- **All that the reader holds is regular.** -/
structure State.Regular (s : State) : Prop where
  frames : ∀ f ∈ s.frames, f.Regular
  place : s.place.Regular

variable {limit : Nat} {s s' : State} {frames : List Frame} {j : Json}

theorem Regular.insert {entries : List (String × Json)} (h : Regular (.obj entries))
    (hj : j.Regular) (key : String) : Regular (.obj (Entries.insert key j entries)) := by
  cases h with
  | obj hstrict hall =>
    refine .obj (hstrict.insert key j) fun e he => ?_
    rcases Entries.mem_insert he with rfl | he
    · exact hj
    · exact hall e he

theorem deliver_regular (hj : j.Regular) (hframes : ∀ f ∈ frames, f.Regular)
    (h : deliver j frames = .ok s) : s.Regular := by
  match frames with
  | [] =>
    cases h
    exact ⟨hframes, hj⟩
  | .array items :: frames =>
    cases h
    obtain ⟨hitems, hothers⟩ := List.forall_mem_cons.mp hframes
    exact ⟨List.forall_mem_cons.mpr ⟨List.forall_mem_cons.mpr ⟨hj, hitems⟩, hothers⟩, trivial⟩
  | .member entries key :: frames =>
    cases h
    obtain ⟨hentries, hothers⟩ := List.forall_mem_cons.mp hframes
    exact ⟨List.forall_mem_cons.mpr ⟨Regular.insert hentries hj key, hothers⟩, trivial⟩
  | .object entries :: frames => cases h

theorem deliverKey_regular {key : String} (hframes : ∀ f ∈ frames, f.Regular)
    (h : deliverKey key frames = .ok s) : s.Regular := by
  match frames with
  | .object entries :: frames =>
    cases h
    obtain ⟨hentries, hothers⟩ := List.forall_mem_cons.mp hframes
    exact ⟨List.forall_mem_cons.mpr ⟨hentries, hothers⟩, trivial⟩
  | [] | .array _ :: _ | .member _ _ :: _ => cases h

theorem regular_of_ok {place : Place}
    (h : Except.ok ⟨frames, place⟩ = (Except.ok s : Except Fault State))
    (hframes : ∀ f ∈ frames, f.Regular) (hplace : place.Regular) : s.Regular := by
  cases h
  exact ⟨hframes, hplace⟩

theorem openFrame_regular {frame : Frame} {place : Place}
    (h : openFrame limit frame place frames = .ok s) (hframes : ∀ f ∈ frames, f.Regular)
    (hframe : frame.Regular) (hplace : place.Regular) : s.Regular := by
  unfold openFrame at h
  split at h
  · cases h
    exact ⟨List.forall_mem_cons.mpr ⟨hframe, hframes⟩, hplace⟩
  · cases h

/-! ### numbers -/

/-- the data of an integer of 64 bits and a sign is an integer that fits, or a finite number -/
theorem ofNumeral_regular (negative : Bool) (n : UInt64) : (ofNumeral negative n).Regular := by
  have hn : n.toNat < 2 ^ 64 := n.toNat_lt
  unfold ofNumeral
  split
  · split
    · exact .float (by decide)
    split
    · rename_i hleast
      exact .int hleast (by unfold greatestNat; omega)
    · exact .float (decide_eq_true (nearest_lt_infinity hn))
  · exact .int (by unfold leastInt; omega) (by unfold greatestNat; omega)

theorem Numeral.value?_regular {n : Numeral} (h : n.value? = some j) : j.Regular := by
  unfold Numeral.value? at h
  dsimp only at h
  split at h
  · cases h
    exact ofNumeral_regular n.negative n.significand
  split at h
  · rename_i hfinite
    cases h
    exact .float hfinite
  · cases h

theorem deliverNumber_regular {n : Numeral} (hframes : ∀ f ∈ frames, f.Regular)
    (h : deliverNumber n frames = .ok s) : s.Regular := by
  unfold deliverNumber at h
  split at h
  · split at h
    · rename_i hvalue
      exact deliver_regular (Numeral.value?_regular hvalue) hframes h
    · cases h
  · cases h

/-! ### the reader's moves -/

theorem stepAfter_regular {c : Char} (hs : s.Regular) (h : stepAfter s c = .ok s') :
    s'.Regular := by
  obtain ⟨frames, place⟩ := s
  obtain ⟨hframes, hplace⟩ := hs
  unfold stepAfter at h
  split at h
  · cases h
    exact ⟨hframes, hplace⟩
  split at h
  · rename_i items frames hitems
    subst hitems
    obtain ⟨hitems, hothers⟩ := List.forall_mem_cons.mp hframes
    split at h
    · cases h
      exact ⟨hframes, trivial⟩
    split at h
    · exact deliver_regular (.arr fun j hj => hitems j (List.mem_reverse.mp hj)) hothers h
    · cases h
  · rename_i entries frames hentries
    subst hentries
    obtain ⟨hentries, hothers⟩ := List.forall_mem_cons.mp hframes
    split at h
    · cases h
      exact ⟨hframes, trivial⟩
    split at h
    · exact deliver_regular hentries hothers h
    · cases h
  · cases h

section
variable {isKey sound : Bool} {read : List Char}

theorem deliverUnit_regular {high : Option Nat} {unit : Nat} (hframes : ∀ f ∈ frames, f.Regular)
    (h : deliverUnit isKey read sound high unit frames = .ok s) : s.Regular := by
  unfold deliverUnit at h
  split at h
  · split at h
    · cases h
    split at h
    all_goals
      cases h
      exact ⟨hframes, trivial⟩
  · split at h
    · cases h
      exact ⟨hframes, trivial⟩
    · cases h

theorem stepUnit_regular {high value : Option Nat} {left : Nat} {c : Option Char}
    (hframes : ∀ f ∈ frames, f.Regular)
    (h : stepUnit isKey read sound high value left c frames = .ok s) : s.Regular := by
  unfold stepUnit at h
  dsimp only at h
  split at h
  · split at h
    · exact deliverUnit_regular hframes h
    · cases h
  · cases h
    exact ⟨hframes, trivial⟩

theorem stepText_regular {escape : Escape} {c : Option Char} (hframes : ∀ f ∈ frames, f.Regular)
    (h : stepText isKey read sound escape c frames = .ok s) : s.Regular := by
  unfold stepText at h
  split at h
  · split at h
    · split at h
      · dsimp only at h
        split at h
        · exact deliverKey_regular hframes h
        · exact deliver_regular (.str _) hframes h
      · cases h
    · exact regular_of_ok h hframes trivial
    · split at h
      · cases h
      · exact regular_of_ok h hframes trivial
    · exact regular_of_ok h hframes trivial
  · split at h
    · exact regular_of_ok h hframes trivial
    · split at h
      · exact regular_of_ok h hframes trivial
      · cases h
    · cases h
  · exact stepUnit_regular hframes h
  · split at h
    · exact regular_of_ok h hframes trivial
    · cases h
  · split at h
    · exact regular_of_ok h hframes trivial
    · cases h

end

theorem stepValue_regular {c : Char} (hframes : ∀ f ∈ frames, f.Regular)
    (h : stepValue limit frames c = .ok s) : s.Regular := by
  have hempty : Json.Regular (.obj []) := .obj .nil nofun
  unfold stepValue at h
  split at h
  · exact regular_of_ok h hframes trivial
  · exact openFrame_regular h hframes (List.forall_mem_nil _) trivial
  · exact openFrame_regular h hframes hempty trivial
  · exact regular_of_ok h hframes trivial
  · exact regular_of_ok h hframes trivial
  · exact regular_of_ok h hframes (.bool true)
  · exact regular_of_ok h hframes (.bool false)
  · exact regular_of_ok h hframes .null
  · split at h
    · exact regular_of_ok h hframes trivial
    · cases h

/-- **A move of the reader** keeps what it holds regular. -/
theorem step_regular {c : Option Char} (hs : s.Regular) (h : step limit s c = .ok s') :
    s'.Regular := by
  obtain ⟨frames, place⟩ := s
  obtain ⟨hframes, hplace⟩ := hs
  match place, c with
  | .text isKey read sound escape, c => exact stepText_regular hframes h
  | .value, some c =>
    simp only [step] at h
    split at h
    · exact regular_of_ok h hframes trivial
    · exact stepValue_regular hframes h
  | .firstItem, some c =>
    simp only [step] at h
    split at h
    · exact regular_of_ok h hframes trivial
    split at h
    · split at h
      · exact deliver_regular (.arr (List.forall_mem_nil _)) (List.forall_mem_cons.mp hframes).2 h
      · cases h
    · exact stepValue_regular hframes h
  | .firstKey, some c =>
    simp only [step] at h
    split at h
    · exact regular_of_ok h hframes trivial
    split at h
    · exact regular_of_ok h hframes trivial
    split at h
    · split at h
      · exact deliver_regular (.obj .nil nofun) (List.forall_mem_cons.mp hframes).2 h
      · cases h
    · cases h
  | .nextKey, some c | .colon, some c =>
    simp only [step] at h
    split at h
    · exact regular_of_ok h hframes trivial
    split at h
    · exact regular_of_ok h hframes trivial
    · cases h
  | .word rest meaning, some c =>
    simp only [step] at h
    split at h
    · cases h
    · split at h
      · exact deliver_regular hplace hframes h
      · cases h
    · split at h
      · exact regular_of_ok h hframes hplace
      · cases h
  | .number n, some c =>
    simp only [step] at h
    split at h
    · exact regular_of_ok h hframes trivial
    · obtain ⟨after, hafter, h⟩ := Outcome.bind_eq_ok_iff.mp h
      exact stepAfter_regular (deliverNumber_regular hframes hafter) h
  | .afterItem, some c | .afterEntry, some c | .finished _, some c =>
    exact stepAfter_regular ⟨hframes, hplace⟩ h
  | .value, none | .firstItem, none | .firstKey, none | .nextKey, none | .colon, none
  | .word _ _, none | .number _, none | .afterItem, none | .afterEntry, none | .finished _, none =>
    cases h

/-- **The reader's run** keeps what it holds regular. -/
theorem run_regular {text : List (Option Char)} (hs : s.Regular) (h : run limit s text = .ok s') :
    s'.Regular := by
  induction text generalizing s with
  | nil =>
    cases h
    exact hs
  | cons c rest ih =>
    rw [run] at h
    split at h
    · rename_i next hnext
      exact ih (step_regular hs hnext) h
    · cases h

theorem result_regular (hs : s.Regular) (h : result s = .ok j) : j.Regular := by
  obtain ⟨frames, place⟩ := s
  have hplace := hs.place
  unfold result at h
  split at h
  · rename_i hfinished
    cases h
    dsimp only at hfinished
    rw [hfinished] at hplace
    exact hplace
  · split at h
    · split at h
      · rename_i hvalue hframes
        cases h
        exact Numeral.value?_regular hvalue
      · cases h
      · cases h
    · cases h
  · cases h

theorem start_regular : start.Regular := ⟨List.forall_mem_nil _, trivial⟩

/-- **The reader makes regular data.** -/
theorem parse_regular {octets : List UInt8} (h : parse octets = .ok j) : j.Regular := by
  unfold parse parseWithin at h
  split at h
  · rename_i s hrun
    exact result_regular (run_regular start_regular hrun) h
  · cases h

end Json

/-! ### parts -/

theorem Json.Regular.of_items {items : List Json} (h : Json.Regular (.arr items)) :
    ∀ j ∈ items, j.Regular := by
  cases h with
  | arr hitems => exact hitems

theorem Json.Regular.entry? {j content : Json} (h : j.Regular) {name : String}
    (hname : j.entry? name = some content) : content.Regular := by
  cases h with
  | obj _ hall => exact hall _ (Entries.mem_of_find? hname)
  | _ => cases hname

theorem Json.Regular.at? {j j' : Json} (h : j.Regular) {way : List String}
    (hway : j.at? way = some j') : j'.Regular := by
  induction way generalizing j with
  | nil =>
    cases hway
    exact h
  | cons key rest ih =>
    rw [Json.at?, Option.bind_eq_some_iff] at hway
    obtain ⟨content, hentry, hrest⟩ := hway
    exact ih (h.entry? hentry) hrest

/-! ### finite numbers -/

section
variable {m : Markers} {path p : FieldPath} {x : Double}

/-- **The value of an integer of 64 bits,** signed or not, is an integer or a finite number. -/
theorem Value.finite_ofInteger {n : Int} (hleast : Json.leastInt ≤ n)
    (hgreatest : n ≤ Json.greatestNat) (h : (Value.ofInteger n).WritesFloat m path p x) :
    x.isFinite = true := by
  unfold Value.ofInteger at h
  split at h
  · cases h
  · cases h
    refine decide_eq_true (nearest_lt_infinity ?_)
    unfold Json.leastInt Json.greatestNat at *
    omega

theorem Value.ofItems_eq_map (items : List Json) :
    Value.ofItems items = items.map Value.ofJson := by
  induction items with
  | nil => rfl
  | cons j rest ih => rw [Value.ofItems, ih, List.map_cons]

theorem Value.ofJsonEntries_eq_map (entries : List (String × Json)) :
    Value.ofJsonEntries entries = entries.map fun e => (e.1, Value.ofJson e.2) := by
  induction entries with
  | nil => rfl
  | cons entry rest ih =>
    obtain ⟨name, j⟩ := entry
    rw [Value.ofJsonEntries, ih, List.map_cons]

/-- **A value of regular data has finite numbers alone.** -/
theorem Json.Regular.finite {j : Json} (h : j.Regular)
    (hx : (Value.ofJson j).WritesFloat m path p x) : x.isFinite = true := by
  induction h generalizing path with
  | null | bool _ | str _ => cases hx
  | int hleast hgreatest => exact Value.finite_ofInteger hleast hgreatest hx
  | float hfinite =>
    cases hx
    exact hfinite
  | arr _ ih =>
    rw [Value.ofJson, Value.ofItems_eq_map] at hx
    cases hx with
    | item hmem hv =>
      obtain ⟨j, hj, rfl⟩ := List.mem_map.mp hmem
      exact ih j hj hv
  | obj _ _ ih =>
    rw [Value.ofJson, Value.ofJsonEntries_eq_map] at hx
    cases hx with
    | field hmem _ _ hv =>
      obtain ⟨e, he, heq⟩ := List.mem_map.mp hmem
      cases heq
      exact ih e he hv

end

end GraphQLCall
