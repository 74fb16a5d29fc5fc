import GraphQLCall.Outcome
import Mathlib.Data.List.Forall2

/-!
# Outcome: steps that all pass, or one that fails

* `Outcome.map_eq_ok_iff`, `Outcome.map_eq_error_iff`, `Outcome.bind_eq_ok_iff`   what an outcome was
  made from
* `Outcome.map_unit_eq_ok_iff`, `Outcome.eq_ok_iff_forall_ne`   whether there is a result
* `Outcome.each_ok`, `Outcome.each_error`   the results of all items, or a failure among them
* `Outcome.each_eq_ok_iff`   when all items have results
* `Outcome.all_eq_ok_iff`, `Outcome.all_error`   items that all pass, or a failure among them
* `Outcome.all_congr`, `Outcome.all_append`   only the items matter, and they are taken one by one
* `Outcome.all_map`, `Outcome.all_flatMap`   items that are made of others, or come in groups
* `Outcome.all_mapError`   failures that are told in other words
* `Outcome.each_map_unit`   items whose results do not matter
* `Outcome.exists_first_cons_iff`   the first of some items of which something holds
* `Outcome.all_eq_error_iff`   the first of the items that fail
* `Outcome.FirstOf`   an outcome that is the first of some failures
-/

namespace GraphQLCall.Outcome

variable {ε α β : Type}

theorem map_eq_ok_iff {f : α → β} {r : Except ε α} {b : β} :
    r.map f = .ok b ↔ ∃ a, r = .ok a ∧ b = f a := by
  cases r <;> simp [Except.map, eq_comm]

theorem map_eq_error_iff {f : α → β} {r : Except ε α} {e : ε} :
    r.map f = .error e ↔ r = .error e := by
  cases r <;> simp [Except.map]

theorem map_unit_eq_ok_iff {r : Except ε α} : r.map (fun _ => ()) = .ok () ↔ ∃ a, r = .ok a := by
  cases r <;> simp [Except.map]

/-- **A check passes** just if it does not fail. -/
theorem eq_ok_iff_forall_ne {r : Except ε Unit} : r = .ok () ↔ ∀ e, r ≠ .error e := by
  cases r <;> simp

theorem bind_eq_ok_iff {f : α → Except ε β} {r : Except ε α} {b : β} :
    (r >>= f) = .ok b ↔ ∃ a, r = .ok a ∧ f a = .ok b := by
  cases r with
  | error e => exact ⟨nofun, nofun⟩
  | ok a => exact ⟨fun h => ⟨a, rfl, h⟩, fun ⟨a', ha, h⟩ => Except.ok.inj ha ▸ h⟩

theorem each_ok {g : α → Except ε β} {as : List α} {bs : List β} (h : each g as = .ok bs) :
    List.Forall₂ (fun a b => g a = .ok b) as bs := by
  induction as generalizing bs with
  | nil =>
    cases h
    exact .nil
  | cons a rest ih =>
    rw [each] at h
    split at h
    · cases h
    · rename_i ha
      split at h
      · cases h
      · rename_i hrest
        cases h
        exact .cons ha (ih hrest)

theorem each_eq_ok_iff {g : α → Except ε β} {as : List α} {bs : List β} :
    each g as = .ok bs ↔ List.Forall₂ (fun a b => g a = .ok b) as bs := by
  refine ⟨each_ok, fun h => ?_⟩
  induction h with
  | nil => rfl
  | cons ha _ ih => rw [each, ha, ih]

theorem each_error {g : α → Except ε β} {as : List α} {e : ε} (h : each g as = .error e) :
    ∃ a ∈ as, g a = .error e := by
  induction as with
  | nil => cases h
  | cons a rest ih =>
    rw [each] at h
    split at h
    · rename_i ha
      cases h
      exact ⟨a, List.mem_cons_self, ha⟩
    · split at h
      · rename_i hrest
        cases h
        obtain ⟨b, hb, hfail⟩ := ih hrest
        exact ⟨b, List.mem_cons_of_mem _ hb, hfail⟩
      · cases h

theorem all_eq_ok_iff {f : α → Except ε Unit} {as : List α} :
    all f as = .ok () ↔ ∀ a ∈ as, f a = .ok () := by
  induction as with
  | nil => simp [all]
  | cons a rest ih =>
    rw [all, List.forall_mem_cons]
    split
    · rename_i ha
      simp [ha]
    · rename_i ha
      simp [ha, ih]

theorem all_error {f : α → Except ε Unit} {as : List α} {e : ε} (h : all f as = .error e) :
    ∃ a ∈ as, f a = .error e := by
  induction as with
  | nil => cases h
  | cons a rest ih =>
    rw [all] at h
    split at h
    · rename_i ha
      cases h
      exact ⟨a, List.mem_cons_self, ha⟩
    · obtain ⟨b, hb, hfail⟩ := ih h
      exact ⟨b, List.mem_cons_of_mem _ hb, hfail⟩

theorem all_congr {f g : α → Except ε Unit} {as : List α} (h : ∀ a ∈ as, f a = g a) :
    all f as = all g as := by
  induction as with
  | nil => rfl
  | cons a rest ih =>
    obtain ⟨ha, hrest⟩ := List.forall_mem_cons.mp h
    rw [all, all, ha, ih hrest]

theorem all_append {f : α → Except ε Unit} (as bs : List α) :
    all f (as ++ bs) = (all f as).bind fun _ => all f bs := by
  induction as with
  | nil => rfl
  | cons a rest ih =>
    rw [List.cons_append, all, all]
    cases f a with
    | error e => rfl
    | ok u => exact ih

theorem all_map {γ : Type} {f : β → Except ε Unit} (g : γ → β) (cs : List γ) :
    all f (cs.map g) = all (fun c => f (g c)) cs := by
  induction cs with
  | nil => rfl
  | cons c rest ih => rw [List.map_cons, all, all, ih]

/-- **Items that come in groups** are taken group by group. -/
theorem all_flatMap {γ : Type} {f : β → Except ε Unit} (g : γ → List β) (cs : List γ) :
    all f (cs.flatMap g) = all (fun c => all f (g c)) cs := by
  induction cs with
  | nil => rfl
  | cons c rest ih =>
    rw [List.flatMap_cons, all_append, ih, all]
    cases all f (g c) with
    | error e => rfl
    | ok u => rfl

theorem all_mapError {ε' : Type} {f : α → Except ε Unit} (g : ε → ε') (as : List α) :
    (all f as).mapError g = all (fun a => (f a).mapError g) as := by
  induction as with
  | nil => rfl
  | cons a rest ih =>
    rw [all, all]
    cases f a with
    | error e => rfl
    | ok u => exact ih

theorem each_map_unit {g : α → Except ε β} (as : List α) :
    (each g as).map (fun _ => ()) = all (fun a => (g a).map fun _ => ()) as := by
  induction as with
  | nil => rfl
  | cons a rest ih =>
    rw [each, all, ← ih]
    cases g a with
    | error e => rfl
    | ok b => cases each g rest <;> rfl

/-- **The first item of which something holds,** those in front of it being fine: the head, or one
behind it if the head is fine. -/
theorem exists_first_cons_iff {fine : α → Prop} {Q : α → List α → Prop} {a : α} {rest : List α} :
    (∃ before b after, a :: rest = before ++ b :: after ∧ (∀ c ∈ before, fine c) ∧ Q b after) ↔
      Q a rest ∨ fine a ∧ ∃ before b after, rest = before ++ b :: after ∧
        (∀ c ∈ before, fine c) ∧ Q b after := by
  constructor
  · rintro ⟨before, b, after, hsplit, hbefore, hb⟩
    cases before with
    | nil =>
      cases hsplit
      exact .inl hb
    | cons c before =>
      cases hsplit
      obtain ⟨ha, hbefore⟩ := List.forall_mem_cons.mp hbefore
      exact .inr ⟨ha, before, b, after, rfl, hbefore, hb⟩
  · rintro (ha | ⟨ha, before, b, after, rfl, hbefore, hb⟩)
    · exact ⟨[], a, rest, rfl, nofun, ha⟩
    · exact ⟨a :: before, b, after, rfl, List.forall_mem_cons.mpr ⟨ha, hbefore⟩, hb⟩

theorem exists_first_not_iff {fine : α → Prop} {as : List α} :
    (∃ before a after, as = before ++ a :: after ∧ (∀ b ∈ before, fine b) ∧ ¬ fine a) ↔
      ¬ ∀ a ∈ as, fine a := by
  induction as with
  | nil => simp
  | cons a rest ih =>
    rw [exists_first_cons_iff (Q := fun a _ => ¬ fine a), ih, List.forall_mem_cons]
    tauto

/-- **Items do not all pass** just with the failure of the first that fails. -/
theorem all_eq_error_iff {f : α → Except ε Unit} {as : List α} {e : ε} :
    all f as = .error e ↔ ∃ before a after, as = before ++ a :: after ∧
      (∀ b ∈ before, f b = .ok ()) ∧ f a = .error e := by
  induction as with
  | nil => simp [all]
  | cons a rest ih =>
    rw [exists_first_cons_iff, ← ih, all]
    cases f a <;> simp

/-! ### the first of some failures -/

/-- **An outcome that is the first of some failures,** or a result if there are none. -/
def FirstOf (es : List ε) (r : Except ε α) : Prop :=
  match es with
  | [] => ∃ a, r = .ok a
  | e :: _ => r = .error e

namespace FirstOf

variable {es es' : List ε} {r : Except ε α} {e : ε}

theorem map (h : FirstOf es r) (f : α → β) : FirstOf es (r.map f) := by
  cases es with
  | nil =>
    obtain ⟨a, rfl⟩ := h
    exact ⟨f a, rfl⟩
  | cons e es =>
    have hr : r = .error e := h
    rw [hr]
    exact rfl

/-- **One step after another:** the failures of the first come first. -/
theorem bind {next : α → Except ε β} (h : FirstOf es r) (hnext : ∀ a, FirstOf es' (next a)) :
    FirstOf (es ++ es') (r.bind next) := by
  cases es with
  | nil =>
    obtain ⟨a, rfl⟩ := h
    exact hnext a
  | cons e es =>
    have hr : r = .error e := h
    rw [hr]
    exact rfl

theorem eq_ok_iff (h : FirstOf es r) : (∃ a, r = .ok a) ↔ es = [] := by
  cases es with
  | nil => exact ⟨fun _ => rfl, fun _ => h⟩
  | cons e es =>
    have hr : r = .error e := h
    simp [hr]

theorem fails_iff (h : FirstOf es r) : (∃ e, r = .error e) ↔ es ≠ [] := by
  cases es with
  | nil =>
    obtain ⟨a, rfl⟩ := h
    simp
  | cons e es => exact ⟨fun _ => List.cons_ne_nil e es, fun _ => ⟨e, h⟩⟩

theorem eq_error_iff (h : FirstOf es r) : r = .error e ↔ es.head? = some e := by
  cases es with
  | nil =>
    obtain ⟨a, rfl⟩ := h
    simp
  | cons e' es =>
    have hr : r = .error e' := h
    simp [hr]

end FirstOf

end GraphQLCall.Outcome
