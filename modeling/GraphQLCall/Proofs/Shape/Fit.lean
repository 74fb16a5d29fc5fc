import GraphQLCall.Proofs.Json.Parts
import GraphQLCall.Proofs.Outcome
import GraphQLCall.Shape.Fit

/-!
# Shapes: what the check of data says

* `Mismatch.behind`   a mismatch seen from the whole that its data is one step away from
* `Shape.fit_congr`   the check looks at what a shape is, and at nothing else of it
* `Shape.fit_scalar_iff`, `Shape.fit_list_iff`, `Shape.fit_object_iff`   the data that fits
* `Shape.fit_error`   data that does not fit: it is no data of the shape's kind, or a part of it does
                      not fit
-/

namespace GraphQLCall

namespace Mismatch

variable {α : Type} {step : Step} {r : Except Mismatch α}

/-- a mismatch seen from the whole that its data is one step away from -/
def behind (step : Step) (m : Mismatch) : Mismatch := ⟨step :: m.steps, m.reason⟩

theorem within_eq_ok_iff {a : α} : within step r = .ok a ↔ r = .ok a := by
  cases r <;> simp [within]

theorem within_eq_error_iff {m : Mismatch} :
    within step r = .error m ↔ ∃ m', r = .error m' ∧ m = m'.behind step := by
  cases r <;> simp [within, behind, eq_comm]

theorem within_all (step : Step) (f : α → Except Mismatch Unit) (as : List α) :
    within step (Outcome.all f as) = Outcome.all (fun a => within step (f a)) as := by
  induction as with
  | nil => rfl
  | cons a rest ih =>
    rw [Outcome.all, Outcome.all]
    cases f a with
    | error m => rfl
    | ok u => exact ih

end Mismatch

namespace Shape

variable {cat : Catalogue} {s : Shape} {j : Json} {m : Mismatch}

/-! ### parts -/

theorem fitItems_eq_ok_iff {i : Nat} {items : List Json} :
    fitItems cat s i items = .ok () ↔ ∀ j ∈ items, s.fit cat j = .ok () := by
  induction items generalizing i with
  | nil => simp [fitItems]
  | cons j rest ih =>
    rw [fitItems, List.forall_mem_cons]
    split
    · rename_i hj
      obtain ⟨m', hm', -⟩ := Mismatch.within_eq_error_iff.mp hj
      simp [hm']
    · rename_i hj
      rw [ih, Mismatch.within_eq_ok_iff.mp hj]
      simp

theorem fitItems_error {i : Nat} {items : List Json} (h : fitItems cat s i items = .error m) :
    ∃ k j m', items[k]? = some j ∧ s.fit cat j = .error m' ∧ m = m'.behind (.index (i + k)) := by
  induction items generalizing i with
  | nil =>
    rw [fitItems] at h
    cases h
  | cons j rest ih =>
    rw [fitItems] at h
    split at h
    · rename_i hj
      cases h
      obtain ⟨m', hm', hm⟩ := Mismatch.within_eq_error_iff.mp hj
      exact ⟨0, j, m', rfl, hm', hm⟩
    · obtain ⟨k, j', m', hk, hm', hm⟩ := ih h
      refine ⟨k + 1, j', m', hk, hm', ?_⟩
      rw [hm, Nat.add_right_comm, Nat.add_assoc]

theorem fitEntries_eq_ok_iff {fields : List (String × Shape)} {entries : List (String × Json)} :
    fitEntries cat fields entries = .ok () ↔
      ∀ e ∈ entries, ∀ f ∈ fields, f.1 = e.1 → f.2.fit cat e.2 = .ok () := by
  induction entries with
  | nil => simp [fitEntries]
  | cons entry rest ih =>
    obtain ⟨k, j⟩ := entry
    have hall : Outcome.all (fun f : String × Shape => fit cat f.2 j)
        (fields.filter fun f => f.1 = k) = .ok () ↔
        ∀ f ∈ fields, f.1 = k → f.2.fit cat j = .ok () := by
      simp [Outcome.all_eq_ok_iff]
    rw [fitEntries, List.forall_mem_cons]
    split
    · rename_i hj
      obtain ⟨m', hm', -⟩ := Mismatch.within_eq_error_iff.mp hj
      rw [hm'] at hall
      exact ⟨nofun, fun h => nomatch hall.mpr h.1⟩
    · rename_i hj
      rw [ih, ← hall, Mismatch.within_eq_ok_iff.mp hj]
      simp

theorem fitEntries_error {fields : List (String × Shape)} {entries : List (String × Json)}
    (h : fitEntries cat fields entries = .error m) :
    ∃ k j f m', (k, j) ∈ entries ∧ (k, f) ∈ fields ∧ f.fit cat j = .error m' ∧
      m = m'.behind (.key k) := by
  induction entries with
  | nil =>
    rw [fitEntries] at h
    cases h
  | cons entry rest ih =>
    obtain ⟨k, j⟩ := entry
    rw [fitEntries] at h
    split at h
    · rename_i hj
      cases h
      obtain ⟨m', hall, hm⟩ := Mismatch.within_eq_error_iff.mp hj
      obtain ⟨⟨name, f⟩, hf, hm'⟩ := Outcome.all_error hall
      obtain ⟨hmem, hname⟩ := List.mem_filter.mp hf
      obtain rfl : name = k := of_decide_eq_true hname
      exact ⟨name, j, f, m', List.mem_cons_self, hmem, hm', hm⟩
    · obtain ⟨k', j', f, m', hmem, hrest⟩ := ih h
      exact ⟨k', j', f, m', List.mem_cons_of_mem _ hmem, hrest⟩

/-! ### wholes -/

/-- **The check looks at what a shape is,** and at nothing else of it. -/
theorem fit_congr {s' : Shape} (h : s.head cat = s'.head cat) (j : Json) :
    s.fit cat j = s'.fit cat j := by
  cases j <;> simp only [fit, h]

theorem fitLeaf_scalar_iff {kind : ScalarKind} :
    fitLeaf (.scalar kind) j = .ok () ↔ kind.accepts j = true := by
  simp [fitLeaf]

theorem fit_scalar_iff {kind : ScalarKind} (h : s.head cat = .scalar kind) :
    s.fit cat j = .ok () ↔ j = .null ∨ kind.accepts j = true := by
  cases j <;> simp [fit, h, fitLeaf_scalar_iff]

theorem fit_list_iff {inner : Shape} (h : s.head cat = .list inner) :
    s.fit cat j = .ok () ↔
      j = .null ∨ ∃ items, j = .arr items ∧ ∀ i ∈ items, inner.fit cat i = .ok () := by
  cases j <;> simp [fit, h, fitLeaf, fitItems_eq_ok_iff]

theorem fit_object_iff {typeName : Option String} {fields : List (String × Shape)}
    (h : s.head cat = .object typeName fields) :
    s.fit cat j = .ok () ↔ j = .null ∨ ∃ entries, j = .obj entries ∧
      ∀ e ∈ entries, ∀ f ∈ fields, f.1 = e.1 → f.2.fit cat e.2 = .ok () := by
  cases j <;> simp [fit, h, fitLeaf, fitEntries_eq_ok_iff]

theorem steps_of_fitLeaf {head : Head} (h : fitLeaf head j = .error m) : m.steps = [] := by
  unfold fitLeaf at h
  split at h
  · split at h
    · cases h
    · cases h
      rfl
  · cases h
    rfl
  · cases h
    rfl

/-- **Data that does not fit:** it is no data of the shape's kind, or an item of it or an entry that
is a field does not fit. -/
inductive Misfit (cat : Catalogue) (s : Shape) (j : Json) (m : Mismatch) : Prop
  | whole : m.steps = [] → Misfit cat s j m
  | item {inner : Shape} {items : List Json} {i : Nat} {j' : Json} {m' : Mismatch} :
      s.head cat = .list inner → j = .arr items → items[i]? = some j' →
      inner.fit cat j' = .error m' → m = m'.behind (.index i) → Misfit cat s j m
  | entry {typeName : Option String} {fields : List (String × Shape)}
      {entries : List (String × Json)} {key : String} {f : Shape} {j' : Json} {m' : Mismatch} :
      s.head cat = .object typeName fields → j = .obj entries → (key, j') ∈ entries →
      (key, f) ∈ fields → f.fit cat j' = .error m' → m = m'.behind (.key key) → Misfit cat s j m

theorem fit_error (h : s.fit cat j = .error m) : Misfit cat s j m := by
  cases j with
  | null =>
    rw [fit] at h
    cases h
  | arr items =>
    rw [fit] at h
    split at h
    · rename_i hs
      obtain ⟨i, j', m', hi, hm', hm⟩ := fitItems_error h
      rw [Nat.zero_add] at hm
      exact .item hs rfl hi hm' hm
    · exact .whole (steps_of_fitLeaf h)
  | obj entries =>
    rw [fit] at h
    split at h
    · rename_i hs
      obtain ⟨key, j', f, m', hmem, hf, hm', hm⟩ := fitEntries_error h
      exact .entry hs rfl hmem hf hm' hm
    · exact .whole (steps_of_fitLeaf h)
  | _ =>
    simp only [fit] at h
    exact .whole (steps_of_fitLeaf h)

end Shape

end GraphQLCall
