import GraphQLCall.Proofs.Json.Regular
import GraphQLCall.Proofs.Mismatch
import GraphQLCall.Proofs.Shape.Fit
import GraphQLCall.Shape.Inferred

/-!
# Shapes: data against the shape that is inferred from it

The shape of a list is that of its first item that is not null, and nothing is known of the items
behind it.  That is the only reason for which data does not fit the shape that is inferred from it.

* `Json.inferred`   the shape that is inferred from data
* `Json.inferred_arr`, `Json.inferred_obj`   the shapes of arrays and objects
* `Shape.at?`, `Json.at?_inferred`   the shape at the place of an object
* `Json.InLaterItem`   a place in an item of an array that another item speaks for
* `Json.inLaterItem_of_fit_error`   data is refused in such an item
* `Json.inferred_fits`   what an inferred shape says of its data
-/

namespace GraphQLCall

/-- **The shape that a way of names leads to,** through objects that have them. -/
def Shape.at? : List String → Shape → Option Shape
  | [], s => some s
  | name :: rest, .object _ fields => (Entries.find? name fields).bind (Shape.at? rest)
  | _, _ => none

theorem Shape.ofEntries_eq_map (entries : List (String × Value)) :
    Shape.ofEntries entries = entries.map fun e => (e.1, Shape.ofValue e.2) := by
  induction entries with
  | nil => rfl
  | cons entry rest ih =>
    obtain ⟨name, v⟩ := entry
    rw [Shape.ofEntries, ih, List.map_cons]

theorem Shape.ofFirst_of_ne_null {v : Value} (h : v.isNull = false) (rest : List Value) :
    Shape.ofFirst (v :: rest) = .ofValue v := by
  cases v with
  | null => cases h
  | _ => rfl

theorem Value.isNull_ofJson (j : Json) : (Value.ofJson j).isNull = j.isNull := by
  cases j with
  | int n =>
    rw [Value.ofJson, Value.ofInteger]
    split <;> rfl
  | _ => rfl

namespace Json

/-- **The shape that is inferred from data.** -/
def inferred (j : Json) : Shape := .ofValue (.ofJson j)

variable {cat : Catalogue} {j : Json} {m : Mismatch}

/-- what speaks for an array: its first item that is not null -/
def speaker? (items : List Json) : Option Json := items.find? fun j => !j.isNull

theorem inferred_arr (items : List Json) :
    inferred (.arr items) = .list (((speaker? items).map inferred).getD (.scalar .any)) := by
  have hfirst : Shape.ofFirst (Value.ofItems items) =
      ((speaker? items).map inferred).getD (.scalar .any) := by
    induction items with
    | nil => rfl
    | cons j rest ih =>
      rw [Value.ofItems, speaker?, List.find?_cons]
      cases hnull : j.isNull with
      | true =>
        cases j with
        | null => exact ih
        | _ => cases hnull
      | false => exact Shape.ofFirst_of_ne_null ((Value.isNull_ofJson j).trans hnull) _
  exact congrArg Shape.list hfirst

theorem inferred_obj {entries : List (String × Json)} (h : Entries.Strict entries) :
    inferred (.obj entries) = .object none (entries.map fun e => (e.1, e.2.inferred)) := by
  have hstrict : Entries.Strict (entries.map fun e => (e.1, e.2.inferred)) :=
    List.pairwise_map.mpr h
  have hfields : Shape.ofEntries (Value.ofJsonEntries entries) =
      entries.map fun e => (e.1, e.2.inferred) := by
    rw [Value.ofJsonEntries_eq_map, Shape.ofEntries_eq_map, List.map_map]
    rfl
  rw [inferred, Value.ofJson, Shape.ofValue, hfields, Shape.record, hstrict.sort_eq]

/-- **The shape at the place of an object** is that of the data there. -/
theorem at?_inferred {way : List String} {j' : Json} (hj : j.Regular) (h : j.at? way = some j') :
    j.inferred.at? way = some j'.inferred := by
  induction way generalizing j with
  | nil =>
    cases h
    rfl
  | cons name rest ih =>
    obtain ⟨content, hcontent, hrest⟩ := Option.bind_eq_some_iff.mp h
    have hregular := hj.entry? hcontent
    cases hj with
    | obj hstrict _ =>
      have hfind : Entries.find? name _ = some content := hcontent
      rw [inferred_obj hstrict, Shape.at?, Entries.find?_map_values, hfind]
      exact ih hregular hrest
    | _ => cases hcontent

/-! ### data that is refused -/

/-- **A place in an item of an array that another item speaks for:** the item is not null, and one in
front of it is not either. -/
def InLaterItem (j : Json) (steps : List Step) : Prop :=
  ∃ p i rest items item, steps = p ++ .index i :: rest ∧ j.part? p = some (.arr items) ∧
    items[i]? = some item ∧ item.isNull = false ∧
    ∃ (k : Nat) (other : Json), k < i ∧ items[k]? = some other ∧ other.isNull = false

theorem InLaterItem.behind {j' : Json} {step : Step} {steps : List Step}
    (hstep : ∀ p, j.part? (step :: p) = j'.part? p) (h : j'.InLaterItem steps) :
    j.InLaterItem (step :: steps) := by
  obtain ⟨p, i, rest, items, item, rfl, hp, hitem⟩ := h
  exact ⟨step :: p, i, rest, items, item, rfl, (hstep p).trans hp, hitem⟩

theorem InLaterItem.item {items : List Json} {k : Nat} {item : Json} {steps : List Step}
    (hk : items[k]? = some item) (h : item.InLaterItem steps) :
    (Json.arr items).InLaterItem (.index k :: steps) :=
  h.behind fun p => by rw [part?, hk, Option.bind_some]

theorem InLaterItem.entry {name : String} {content : Json} {steps : List Step}
    (hname : j.entry? name = some content) (h : content.InLaterItem steps) :
    j.InLaterItem (.key name :: steps) :=
  h.behind fun p => by rw [part?, hname, Option.bind_some]

/-- an item that is not null speaks for its array, or one in front of it is not null either -/
theorem speaks_or_later {items : List Json} {k : Nat} {item : Json} (hk : items[k]? = some item)
    (hnull : item.isNull = false) : speaker? items = some item ∨
      ∃ (n : Nat) (other : Json), n < k ∧ items[n]? = some other ∧ other.isNull = false := by
  by_cases hlater : ∃ (n : Nat) (other : Json),
      n < k ∧ items[n]? = some other ∧ other.isNull = false
  · exact .inr hlater
  · obtain ⟨hlt, heq⟩ := List.getElem?_eq_some_iff.mp hk
    have hitem : (!item.isNull) = true := by rw [hnull]; rfl
    refine .inl (List.find?_eq_some_iff_getElem.mpr ⟨hitem, k, hlt, heq, fun n hn => ?_⟩)
    have hbound : n < items.length := Nat.lt_trans hn hlt
    by_contra hne
    exact hlater ⟨n, items[n], hn, List.getElem?_eq_getElem hbound, by simpa using hne⟩

theorem fit_null (s : Shape) : s.fit cat .null = .ok () := by rw [Shape.fit]

/-- **Data is refused in an item that another item speaks for.** -/
theorem inLaterItem_of_fit_error (hj : j.Regular) (h : j.inferred.fit cat j = .error m) :
    j.InLaterItem m.steps := by
  induction j using Json.induction generalizing m with
  | step j ih =>
    cases hj with
    | null => cases h
    | bool b => cases h
    | int hleast hgreatest =>
      rw [inferred, Value.ofJson, Value.ofInteger] at h
      split at h <;> cases h
    | float hfinite => cases h
    | str s => cases h
    | @arr items hitems =>
      rw [inferred_arr, Shape.fit, Shape.head] at h
      obtain ⟨k, item, m', hk, hm', rfl⟩ := Shape.fitItems_error h
      rw [Nat.zero_add]
      have hnull : item.isNull = false := by
        cases item with
        | null =>
          rw [fit_null] at hm'
          cases hm'
        | _ => rfl
      -- what speaks for the array is refused further inside, and any other item is one to look for
      rcases speaks_or_later hk hnull with hspeaks | hlater
      · rw [hspeaks] at hm'
        have hmem : item ∈ items := List.mem_of_getElem? hk
        exact (ih item (.item hmem) (hitems item hmem) hm').item hk
      · exact ⟨[], k, m'.steps, items, item, rfl, rfl, hk, hnull, hlater⟩
    | @obj entries hstrict hentries =>
      rw [inferred_obj hstrict, Shape.fit, Shape.head] at h
      obtain ⟨key, content, f, m', hmem, hf, hm', rfl⟩ := Shape.fitEntries_error h
      obtain ⟨⟨name, j'⟩, hmem', heq⟩ := List.mem_map.mp hf
      obtain ⟨rfl, rfl⟩ : name = key ∧ j'.inferred = f := Prod.mk.inj heq
      have hfind {a : Json} (ha : (name, a) ∈ entries) : Entries.find? name entries = some a :=
        (Entries.find?_eq_some_iff_of_nodup hstrict.nodup).mpr ha
      cases (hfind hmem).symm.trans (hfind hmem')
      exact (ih content (.entry hmem) (hentries _ hmem) hm').entry (hfind hmem)

/-- two items that are not null -/
theorem InLaterItem.two_le {steps : List Step} (h : j.InLaterItem steps) :
    ∃ p items, j.part? p = some (.arr items) ∧ 2 ≤ items.countP fun j => !j.isNull := by
  obtain ⟨p, i, rest, items, item, -, hp, hi, hnull, k, other, hk, hother, hother'⟩ := h
  refine ⟨p, items, hp, ?_⟩
  obtain ⟨hlt, heq⟩ := List.getElem?_eq_some_iff.mp hi
  have hsplit : items = items.take i ++ item :: items.drop (i + 1) := by
    rw [← heq, List.getElem_cons_drop, List.take_append_drop]
  have hfront : other ∈ items.take i := by
    refine List.mem_of_getElem? (i := k) ?_
    rw [List.getElem?_take_of_lt hk, hother]
  have hone : 0 < (items.take i).countP fun j => !j.isNull :=
    List.countP_pos_iff.mpr ⟨other, hfront, by rw [hother']; rfl⟩
  rw [hsplit, List.countP_append, List.countP_cons_of_pos (by rw [hnull]; rfl)]
  omega

/-- **Data fits the shape that is inferred from it, but for mixed arrays.**  At the place of an object
outside of arrays the shape has the keys of the object, in order.  If the data does not fit, the place
is in an item of an array that is neither null nor the first that is not.  So data fits if each of its
arrays has one item that is not null at most. -/
theorem inferred_fits (cat : Catalogue) (j : Json) (hj : j.Regular) :
    (∀ way entries, j.at? way = some (.obj entries) → ∃ fields,
      j.inferred.at? way = some (.object none fields) ∧
      fields.map Prod.fst = entries.map Prod.fst ∧ (fields.map Prod.fst).Pairwise (· < ·)) ∧
    (∀ m, j.inferred.fit cat j = .error m → j.InLaterItem m.steps) ∧
    ((∀ p items, j.part? p = some (.arr items) → (items.countP fun j => !j.isNull) ≤ 1) →
      j.inferred.fit cat j = .ok ()) := by
  refine ⟨fun way entries hway => ?_, fun m hm => inLaterItem_of_fit_error hj hm, fun hone => ?_⟩
  · have hstrict : Entries.Strict entries := by
      cases hj.at? hway with
      | obj hstrict _ => exact hstrict
    have hnames : (entries.map fun e => (e.1, e.2.inferred)).map Prod.fst = entries.map Prod.fst := by
      rw [List.map_map]
      rfl
    refine ⟨_, (at?_inferred hj hway).trans (congrArg some (inferred_obj hstrict)), hnames, ?_⟩
    rw [hnames]
    exact hstrict.names
  · cases hfit : j.inferred.fit cat j with
    | ok u => rfl
    | error m =>
      obtain ⟨p, items, hp, htwo⟩ := (inLaterItem_of_fit_error hj hfit).two_le
      exact absurd (hone p items hp) (Nat.not_le_of_lt htwo)

/-- an integer beyond 64 bits with a sign, behind null -/
def lateData : Json := .arr [.null, .int greatestNat]

/-- an object with an array of items of two kinds -/
def mixedData : Json := .obj [("id", .int 1), ("tags", .arr [.null, .int 1, .null, .str "x"])]

theorem countP_lateData {p : List Step} {items : List Json}
    (h : lateData.part? p = some (.arr items)) : (items.countP fun j => !j.isNull) ≤ 1 := by
  match p with
  | [] =>
    cases h
    decide
  | [.index 0] | [.index 1] => cases h
  | .key _ :: _ | .index 0 :: .key _ :: _ | .index 0 :: .index _ :: _ | .index 1 :: .key _ :: _
  | .index 1 :: .index _ :: _ | .index (_ + 2) :: _ => cases h

/-- The integer fits the shape of its number; the fourth tag is refused, which is neither null nor the
first that is not. -/
theorem inferred_fits_late :
    let m : Mismatch := ⟨[.key "tags", .index 3], .notScalar "Int" .string⟩
    lateData.Regular ∧ mixedData.Regular ∧ lateData.inferred = .list (.scalar .float) ∧
    lateData.inferred.fit [] lateData = .ok () ∧
    (∃ fields, mixedData.inferred.at? [] = some (.object none fields) ∧
      fields.map Prod.fst = ["id", "tags"]) ∧
    mixedData.inferred.fit [] mixedData = .error m ∧ mixedData.InLaterItem m.steps := by
  intro m
  have hlate : lateData.Regular := by
    have hgreatest : Json.Regular (.int greatestNat) := .int (by decide) (by decide)
    exact .arr (List.forall_mem_cons.mpr ⟨.null, List.forall_mem_singleton.mpr hgreatest⟩)
  have hmixed : mixedData.Regular := by
    have hone : Json.Regular (.int 1) := .int (by decide) (by decide)
    refine .obj (.cons (List.forall_mem_singleton.mpr (by decide)) (List.pairwise_singleton _ _)) ?_
    simp [Json.Regular.null, Json.Regular.arr, Json.Regular.str, hone]
  have hshape : lateData.inferred = .list (.scalar .float) := by
    have hitem : inferred (.int greatestNat) = .scalar .float := by
      rw [inferred, Value.ofJson, Value.ofInteger, if_neg (by decide)]
      rfl
    rw [← hitem]
    exact inferred_arr _
  have hrefused : mixedData.inferred.fit [] mixedData = .error m := by
    rw [mixedData, inferred_obj (by decide)]
    rfl
  obtain ⟨-, -, hfits⟩ := inferred_fits [] lateData hlate
  obtain ⟨hfields, hplace, -⟩ := inferred_fits [] mixedData hmixed
  obtain ⟨fields, hat, hnames, -⟩ := hfields [] _ rfl
  exact ⟨hlate, hmixed, hshape, hfits fun _ _ => countP_lateData, ⟨fields, hat, hnames⟩, hrefused,
    hplace m hrefused⟩

end Json

end GraphQLCall
