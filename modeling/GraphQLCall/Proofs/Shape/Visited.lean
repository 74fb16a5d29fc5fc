import GraphQLCall.Proofs.Json.Regular
import GraphQLCall.Proofs.Mismatch
import GraphQLCall.Proofs.Shape.Order
import GraphQLCall.Proofs.Shape.Requested

/-!
# Shapes: the nodes that the check of data visits

The check visits the data node by node, each before its parts, the fields of an object in ascending
order and the items of a list by index.  It stops at the first node that is no data of the kind of
its shape.

* `Json.Conforms`   data that conforms to a shape; `Shape.fit_eq_ok_iff`
* `Visit`, `Shape.visited`   the nodes of data with their shapes, in the order of the check
* `Shape.Leads`, `Shape.mem_visited_iff`   the steps to them
* `Visit.refusal?`   why a node is refused
* `Shape.Ascends`   fields in ascending order of name, wherever steps lead
* `Shape.fit_eq_all`, `Shape.fit_eq_error_iff`   the check stops at the first node that is refused
-/

namespace GraphQLCall

/-! ### data that conforms -/

/-- **Data that conforms to a shape:** null, data of the kind of a scalar, a list whose items conform,
or an object of which each field that is there conforms. -/
inductive Json.Conforms (cat : Catalogue) : Shape → Json → Prop
  | null (s : Shape) : Conforms cat s .null
  | scalar {s : Shape} {kind : ScalarKind} {j : Json} :
      s.head cat = .scalar kind → kind.accepts j = true → Conforms cat s j
  | list {s inner : Shape} {items : List Json} :
      s.head cat = .list inner → (∀ j ∈ items, Conforms cat inner j) → Conforms cat s (.arr items)
  | object {s : Shape} {typeName : Option String} {fields : List (String × Shape)}
      {entries : List (String × Json)} :
      s.head cat = .object typeName fields →
      (∀ f ∈ fields, ∀ j, (f.1, j) ∈ entries → Conforms cat f.2 j) → Conforms cat s (.obj entries)

namespace Shape

variable {cat : Catalogue} {s : Shape} {j : Json} {m : Mismatch}

/-- **Data fits just if it conforms.** -/
theorem fit_eq_ok_iff : s.fit cat j = .ok () ↔ j.Conforms cat s := by
  induction j using Json.induction generalizing s with
  | step j ih =>
    constructor
    · intro h
      cases hs : s.head cat with
      | scalar kind =>
        rcases (fit_scalar_iff hs).mp h with rfl | haccepts
        · exact .null s
        · exact .scalar hs haccepts
      | list inner =>
        rcases (fit_list_iff hs).mp h with rfl | ⟨items, rfl, hitems⟩
        · exact .null s
        · exact .list hs fun j hj => (ih j (.item hj)).mp (hitems j hj)
      | object typeName fields =>
        rcases (fit_object_iff hs).mp h with rfl | ⟨entries, rfl, hentries⟩
        · exact .null s
        · exact .object hs fun f hf j hj => (ih j (.entry hj)).mp (hentries (f.1, j) hj f hf rfl)
    · intro h
      cases h with
      | null => rw [fit]
      | scalar hs haccepts => exact (fit_scalar_iff hs).mpr (.inr haccepts)
      | list hs hitems =>
        exact (fit_list_iff hs).mpr (.inr ⟨_, rfl, fun j hj => (ih j (.item hj)).mpr (hitems j hj)⟩)
      | object hs hentries =>
        refine (fit_object_iff hs).mpr (.inr ⟨_, rfl, ?_⟩)
        rintro ⟨key, j⟩ he ⟨name, f⟩ hf rfl
        exact (ih j (.entry he)).mpr (hentries _ hf j he)

end Shape

/-! ### nodes -/

theorem Ty.deferred_of_head {cat : Catalogue} {t : Ty} {inner : Shape}
    (h : t.head cat = .list inner) : ∃ t', inner = .deferred t' := by
  induction t with
  | option t ih => exact ih h
  | boxed t ih => exact ih h
  | list t =>
    cases h
    exact ⟨t, rfl⟩
  | declared name =>
    rw [head] at h
    split at h <;> cases h
  | _ => cases h

/-- **A node of data:** the steps to it, the shape at its place, and the data there. -/
structure Visit where
  steps : List Step
  shape : Shape
  data : Json

namespace Visit

/-- a node seen from the whole that its data is one step away from -/
def behind (step : Step) (v : Visit) : Visit := ⟨step :: v.steps, v.shape, v.data⟩

/-- **Why a node is refused:** it is not null, and no data of the kind of its shape. -/
def refusal? (cat : Catalogue) (v : Visit) : Option Reason :=
  if v.data.isNull then none
  else
    match v.shape.head cat with
    | .scalar kind =>
      if kind.accepts v.data then none else some (.notScalar kind.graphqlName v.data.kind)
    | .list _ => if v.data.kind = .list then none else some (.notList v.data.kind)
    | .object _ _ => if v.data.kind = .object then none else some (.notObject v.data.kind)

def verdict (cat : Catalogue) (v : Visit) : Except Mismatch Unit :=
  match v.refusal? cat with
  | none => .ok ()
  | some reason => .error ⟨v.steps, reason⟩

end Visit

namespace Shape

mutual

/-- **The nodes of data,** each before its parts, in the order of the fields of its shape. -/
def visited (cat : Catalogue) (s : Shape) : Json → List Visit
  | .arr items =>
    ⟨[], s, .arr items⟩ ::
      match s.head cat with
      | .list inner => visitedItems cat inner 0 items
      | _ => []
  | .obj entries =>
    ⟨[], s, .obj entries⟩ ::
      match s.head cat with
      | .object _ fields => fields.flatMap fun f => visitedEntry cat f.1 f.2 entries
      | _ => []
  | j => [⟨[], s, j⟩]

def visitedItems (cat : Catalogue) (s : Shape) (i : Nat) : List Json → List Visit
  | [] => []
  | j :: rest => (visited cat s j).map (.behind (.index i)) ++ visitedItems cat s (i + 1) rest

/-- the nodes of what an object has under a name -/
def visitedEntry (cat : Catalogue) (name : String) (s : Shape) : List (String × Json) → List Visit
  | [] => []
  | (key, j) :: rest =>
    if key = name then (visited cat s j).map (.behind (.key name)) else visitedEntry cat name s rest

end

/-- **The steps to a node:** they lead from data to a part of it, and from a shape to the one at the
place of the part. -/
inductive Leads (cat : Catalogue) : Shape → Json → List Step → Shape → Json → Prop
  | here (s : Shape) (j : Json) : Leads cat s j [] s j
  | item {s inner s' : Shape} {items : List Json} {i : Nat} {j j' : Json} {steps : List Step} :
      s.head cat = .list inner → items[i]? = some j → Leads cat inner j steps s' j' →
      Leads cat s (.arr items) (.index i :: steps) s' j'
  | field {s f s' : Shape} {typeName : Option String} {fields : List (String × Shape)}
      {entries : List (String × Json)} {name : String} {j j' : Json} {steps : List Step} :
      s.head cat = .object typeName fields → (name, f) ∈ fields →
      Entries.find? name entries = some j → Leads cat f j steps s' j' →
      Leads cat s (.obj entries) (.key name :: steps) s' j'

variable {cat : Catalogue} {s s' : Shape} {j j' : Json} {m : Mismatch} {steps : List Step}

theorem Leads.part? (h : s.Leads cat j steps s' j') : j.part? steps = some j' := by
  induction h with
  | here => rfl
  | item _ hi _ ih => rw [Json.part?, hi, Option.bind_some, ih]
  | field _ _ hfind _ ih => rw [Json.part?, Json.entry?, hfind, Option.bind_some, ih]

theorem mem_visitedItems_iff {i : Nat} {items : List Json} {v : Visit} :
    v ∈ visitedItems cat s i items ↔ ∃ k j, items[k]? = some j ∧
      ∃ u ∈ s.visited cat j, v = u.behind (.index (i + k)) := by
  induction items generalizing i with
  | nil => simp [visitedItems]
  | cons j rest ih =>
    rw [visitedItems, List.mem_append, ih, List.mem_map]
    constructor
    · rintro (⟨u, hu, rfl⟩ | ⟨k, j', hk, u, hu, rfl⟩)
      · exact ⟨0, j, rfl, u, hu, rfl⟩
      · exact ⟨k + 1, j', hk, u, hu, by rw [Nat.add_right_comm, Nat.add_assoc]⟩
    · rintro ⟨k, j', hk, u, hu, rfl⟩
      cases k with
      | zero =>
        cases hk
        exact .inl ⟨u, hu, rfl⟩
      | succ k => exact .inr ⟨k, j', hk, u, hu, by rw [Nat.add_right_comm, Nat.add_assoc]⟩

theorem visitedEntry_eq (name : String) (entries : List (String × Json)) :
    visitedEntry cat name s entries = (Entries.find? name entries).elim []
      fun j => (s.visited cat j).map (.behind (.key name)) := by
  induction entries with
  | nil => rfl
  | cons entry rest ih =>
    obtain ⟨key, j⟩ := entry
    rw [visitedEntry, Entries.find?, ih]
    split <;> rfl

/-- how a node stands to its parts -/
inductive Parting (cat : Catalogue) (s : Shape) (j : Json) : Prop
  | items {inner : Shape} {items : List Json} :
      s.head cat = .list inner → j = .arr items → Parting cat s j
  | fields {typeName : Option String} {fields : List (String × Shape)}
      {entries : List (String × Json)} :
      s.head cat = .object typeName fields → j = .obj entries → Parting cat s j
  | alone : (∀ inner items, s.head cat = .list inner → j ≠ .arr items) →
      (∀ typeName fields entries, s.head cat = .object typeName fields → j ≠ .obj entries) →
      Parting cat s j

theorem parting (cat : Catalogue) (s : Shape) (j : Json) : Parting cat s j := by
  cases hs : s.head cat with
  | scalar kind => exact .alone (by simp [hs]) (by simp [hs])
  | list inner =>
    by_cases hitems : ∃ items, j = .arr items
    · obtain ⟨items, rfl⟩ := hitems
      exact .items hs rfl
    · exact .alone (fun _ items _ hj => hitems ⟨items, hj⟩) (by simp [hs])
  | object typeName fields =>
    by_cases hentries : ∃ entries, j = .obj entries
    · obtain ⟨entries, rfl⟩ := hentries
      exact .fields hs rfl
    · exact .alone (by simp [hs]) (fun _ _ entries _ hj => hentries ⟨entries, hj⟩)

theorem visited_items {inner : Shape} (hs : s.head cat = .list inner) (items : List Json) :
    s.visited cat (.arr items) = ⟨[], s, .arr items⟩ :: visitedItems cat inner 0 items := by
  rw [visited, hs]

theorem visited_fields {typeName : Option String} {fields : List (String × Shape)}
    (hs : s.head cat = .object typeName fields) (entries : List (String × Json)) :
    s.visited cat (.obj entries) = ⟨[], s, .obj entries⟩ ::
      fields.flatMap fun f => visitedEntry cat f.1 f.2 entries := by
  rw [visited, hs]

theorem visited_alone (hlist : ∀ inner items, s.head cat = .list inner → j ≠ .arr items)
    (hobject : ∀ typeName fields entries, s.head cat = .object typeName fields → j ≠ .obj entries) :
    s.visited cat j = [⟨[], s, j⟩] := by
  cases j with
  | arr items =>
    cases hs : s.head cat with
    | list inner => exact absurd rfl (hlist inner items hs)
    | _ => rw [visited, hs]
  | obj entries =>
    cases hs : s.head cat with
    | object typeName fields => exact absurd rfl (hobject typeName fields entries hs)
    | _ => rw [visited, hs]
  | _ => rw [visited] <;> simp

/-- **The nodes of data are those that steps lead to.** -/
theorem mem_visited_iff {v : Visit} :
    v ∈ s.visited cat j ↔ s.Leads cat j v.steps v.shape v.data := by
  induction j using Json.induction generalizing s v with
  | step j ih =>
    obtain ⟨steps, s', j'⟩ := v
    cases parting cat s j with
    | @items inner items hs hj =>
      subst hj
      rw [visited_items hs, List.mem_cons, mem_visitedItems_iff]
      constructor
      · rintro (heq | ⟨k, j, hk, u, hu, heq⟩)
        · cases heq
          exact .here s _
        · cases heq
          rw [Nat.zero_add]
          exact .item hs hk ((ih j (.item (List.mem_of_getElem? hk))).mp hu)
      · intro h
        cases h with
        | here => exact .inl rfl
        | @item _ inner' _ _ k j _ steps hs' hk hleads =>
          rw [hs] at hs'
          cases hs'
          have hu := (ih j (.item (List.mem_of_getElem? hk)) (v := ⟨steps, s', j'⟩)).mpr hleads
          exact .inr ⟨k, j, hk, _, hu, by rw [Nat.zero_add]; rfl⟩
    | @fields typeName fields entries hs hj =>
      subst hj
      rw [visited_fields hs, List.mem_cons, List.mem_flatMap]
      constructor
      · rintro (heq | ⟨⟨name, f⟩, hf, hv⟩)
        · cases heq
          exact .here s _
        · rw [visitedEntry_eq] at hv
          cases hfind : Entries.find? name entries with
          | none =>
            rw [hfind] at hv
            cases hv
          | some j =>
            rw [hfind] at hv
            obtain ⟨u, hu, heq⟩ := List.mem_map.mp hv
            cases heq
            exact .field hs hf hfind ((ih j (.entry (Entries.mem_of_find? hfind))).mp hu)
      · intro h
        cases h with
        | here => exact .inl rfl
        | @field _ f _ _ _ _ name j _ steps hs' hf hfind hleads =>
          rw [hs] at hs'
          cases hs'
          have hu := (ih j (.entry (Entries.mem_of_find? hfind)) (v := ⟨steps, s', j'⟩)).mpr hleads
          refine .inr ⟨(name, f), hf, ?_⟩
          rw [visitedEntry_eq, hfind]
          exact List.mem_map.mpr ⟨_, hu, rfl⟩
    | alone hlist hobject =>
      rw [visited_alone hlist hobject, List.mem_singleton]
      constructor
      · intro heq
        cases heq
        exact .here s j
      · intro h
        cases h with
        | here => rfl
        | item hs => exact absurd rfl (hlist _ _ hs)
        | field hs => exact absurd rfl (hobject _ _ _ hs)

/-! ### the check, node by node -/

theorem verdict_behind (step : Step) (v : Visit) :
    (v.behind step).verdict cat = Mismatch.within step (v.verdict cat) := by
  have hsame : (v.behind step).refusal? cat = v.refusal? cat := rfl
  rw [Visit.verdict, Visit.verdict, hsame]
  cases v.refusal? cat <;> rfl

theorem verdict_eq_ok_iff {v : Visit} : v.verdict cat = .ok () ↔ v.refusal? cat = none := by
  unfold Visit.verdict
  cases v.refusal? cat <;> simp

theorem verdict_eq_error_iff {v : Visit} :
    v.verdict cat = .error m ↔ v.refusal? cat = some m.reason ∧ v.steps = m.steps := by
  obtain ⟨steps, reason⟩ := m
  unfold Visit.verdict
  cases v.refusal? cat <;> simp [and_comm]

theorem fitItems_eq_all {i : Nat} {items : List Json}
    (h : ∀ j ∈ items, s.fit cat j = Outcome.all (Visit.verdict cat) (s.visited cat j)) :
    fitItems cat s i items = Outcome.all (Visit.verdict cat) (visitedItems cat s i items) := by
  induction items generalizing i with
  | nil => rfl
  | cons j rest ih =>
    obtain ⟨hj, hrest⟩ := List.forall_mem_cons.mp h
    have hhead : Mismatch.within (.index i) (s.fit cat j) =
        Outcome.all (Visit.verdict cat) ((s.visited cat j).map (.behind (.index i))) := by
      rw [hj, Mismatch.within_all, Outcome.all_map, Outcome.all_congr]
      exact fun v _ => (verdict_behind _ v).symm
    rw [fitItems, visitedItems, Outcome.all_append, ← hhead, ih hrest]
    cases Mismatch.within (.index i) (s.fit cat j) with
    | error m => rfl
    | ok u => rfl

theorem fitField_eq_all {name : String} {entries : List (String × Json)}
    (h : ∀ e ∈ entries, s.fit cat e.2 = Outcome.all (Visit.verdict cat) (s.visited cat e.2)) :
    fitField cat entries (name, s) =
      Outcome.all (Visit.verdict cat) (visitedEntry cat name s entries) := by
  rw [visitedEntry_eq, fitField]
  cases hfind : Entries.find? name entries with
  | none => rfl
  | some j =>
    show Mismatch.within (.key name) (s.fit cat j) = _
    rw [h (name, j) (Entries.mem_of_find? hfind), Mismatch.within_all, Option.elim, Outcome.all_map,
      Outcome.all_congr]
    exact fun v _ => (verdict_behind _ v).symm

theorem fit_alone (hlist : ∀ inner items, s.head cat = .list inner → j ≠ .arr items)
    (hobject : ∀ typeName fields entries, s.head cat = .object typeName fields → j ≠ .obj entries) :
    s.fit cat j = Visit.verdict cat ⟨[], s, j⟩ := by
  have hleaf (hnull : j.isNull = false) :
      fitLeaf (s.head cat) j = Visit.verdict cat ⟨[], s, j⟩ := by
    cases hs : s.head cat with
    | scalar kind =>
      simp only [fitLeaf, Visit.verdict, Visit.refusal?, hnull, hs]
      cases kind.accepts j <;> rfl
    | list inner =>
      have hkind : j.kind ≠ .list := by
        cases j with
        | arr items => exact absurd rfl (hlist inner items hs)
        | _ => simp [Json.kind]
      simp [fitLeaf, Visit.verdict, Visit.refusal?, hnull, hs, hkind, Mismatch.here]
    | object typeName fields =>
      have hkind : j.kind ≠ .object := by
        cases j with
        | obj entries => exact absurd rfl (hobject typeName fields entries hs)
        | _ => simp [Json.kind]
      simp [fitLeaf, Visit.verdict, Visit.refusal?, hnull, hs, hkind, Mismatch.here]
  cases j with
  | null => rfl
  | arr items =>
    rw [← hleaf rfl, fit]
    cases hs : s.head cat with
    | list inner => exact absurd rfl (hlist inner items hs)
    | _ => rfl
  | obj entries =>
    rw [← hleaf rfl, fit]
    cases hs : s.head cat with
    | object typeName fields => exact absurd rfl (hobject typeName fields entries hs)
    | _ => rfl
  | _ => rw [← hleaf rfl, fit] <;> simp

theorem Ordered.of_object {typeName : Option String} {fields : List (String × Shape)}
    (hs : s.Ordered) (hc : cat.Each fun _ fields => Entries.Ascending fields)
    (h : s.head cat = .object typeName fields) :
    Entries.Ascending fields ∧ ∀ f ∈ fields, f.2.Ordered := by
  have hinner : s.innermost cat = .object typeName fields := innermost_of_object h
  obtain ⟨hascending | ⟨name, -, hname⟩, hfields⟩ := Each.of_innermost hs hc hinner
  · exact ⟨hascending, hfields⟩
  · exact ⟨Catalogue.ascending_of_fields? hname, hfields⟩

theorem Ordered.of_list {inner : Shape} (hs : s.Ordered) (h : s.head cat = .list inner) :
    inner.Ordered := by
  cases s with
  | list inner' =>
    cases h
    exact hs
  | deferred t =>
    obtain ⟨t', rfl⟩ := Ty.deferred_of_head h
    exact trivial
  | _ => cases h

/-- **Objects have their fields in ascending order of name,** wherever steps lead. -/
def Ascends (cat : Catalogue) (s : Shape) : Prop :=
  ∀ j steps s' j' typeName fields, s.Leads cat j steps s' j' →
    s'.head cat = .object typeName fields → Entries.Ascending fields

theorem Ascends.of_list {inner : Shape} (h : s.Ascends cat) (hs : s.head cat = .list inner) :
    inner.Ascends cat := by
  intro j steps s' j' typeName fields hleads
  exact h (.arr [j]) _ s' j' typeName fields (.item (i := 0) hs rfl hleads)

theorem Ascends.of_object {typeName : Option String} {fields : List (String × Shape)}
    (h : s.Ascends cat) (hs : s.head cat = .object typeName fields) :
    Entries.Ascending fields ∧ ∀ f ∈ fields, f.2.Ascends cat := by
  refine ⟨h .null _ s _ typeName fields (.here s _) hs, ?_⟩
  rintro ⟨name, f⟩ hf j steps s' j' typeName' fields' hleads
  have hfind : Entries.find? name [(name, j)] = some j := if_pos rfl
  exact h (.obj [(name, j)]) _ s' j' typeName' fields' (.field hs hf hfind hleads)

theorem Ordered.ascends (hs : s.Ordered) (hc : cat.Each fun _ fields => Entries.Ascending fields) :
    s.Ascends cat := by
  intro j steps s' j' typeName fields hleads
  induction hleads with
  | here => exact fun hhead => (hs.of_object hc hhead).1
  | item hhead _ _ ih => exact ih (hs.of_list hhead)
  | field hhead hf _ _ ih => exact ih ((hs.of_object hc hhead).2 _ hf)

/-- **The check takes the nodes one by one,** up to the first that is refused. -/
theorem fit_eq_all (hs : s.Ascends cat) (hj : j.Regular) :
    s.fit cat j = Outcome.all (Visit.verdict cat) (s.visited cat j) := by
  induction j using Json.induction generalizing s with
  | step j ih =>
    cases parting cat s j with
    | @items inner items hhead hitems =>
      subst hitems
      have hself : Visit.verdict cat ⟨[], s, .arr items⟩ = .ok () := by
        simp [Visit.verdict, Visit.refusal?, hhead, Json.kind]
      have hparts := fitItems_eq_all (i := 0) fun j hmem =>
        ih j (.item hmem) (hs.of_list hhead) (hj.of_items j hmem)
      rw [visited_items hhead, Outcome.all, hself, fit, hhead]
      exact hparts
    | @fields typeName fields entries hhead hentries =>
      subst hentries
      obtain ⟨hascending, hfields⟩ := hs.of_object hhead
      obtain ⟨hstrict, hregular⟩ : Entries.Strict entries ∧ ∀ e ∈ entries, e.2.Regular := by
        cases hj with
        | obj hstrict hregular => exact ⟨hstrict, hregular⟩
      have hself : Visit.verdict cat ⟨[], s, .obj entries⟩ = .ok () := by
        simp [Visit.verdict, Visit.refusal?, hhead, Json.kind]
      have hparts (f : String × Shape) (hf : f ∈ fields) : fitField cat entries f =
          Outcome.all (Visit.verdict cat) (visitedEntry cat f.1 f.2 entries) :=
        fitField_eq_all fun e he => ih e.2 (.entry he) (hfields f hf) (hregular e he)
      rw [visited_fields hhead, Outcome.all, hself, fit_by_fields hhead hascending hstrict,
        Outcome.all_flatMap]
      exact Outcome.all_congr hparts
    | alone hlist hobject =>
      rw [visited_alone hlist hobject, fit_alone hlist hobject, Outcome.all]
      cases Visit.verdict cat ⟨[], s, j⟩ <;> rfl

/-- **A node that is refused** does not fit as a whole. -/
theorem fit_of_refusal {steps : List Step} {reason : Reason}
    (h : Visit.refusal? cat ⟨steps, s, j⟩ = some reason) :
    s.fit cat j = .error (.here reason) := by
  cases parting cat s j with
  | items hhead hj =>
    subst hj
    simp [Visit.refusal?, hhead, Json.kind] at h
  | fields hhead hj =>
    subst hj
    simp [Visit.refusal?, hhead, Json.kind] at h
  | alone hlist hobject =>
    rw [fit_alone hlist hobject]
    exact verdict_eq_error_iff.mpr ⟨h, rfl⟩

/-- **Data that does not fit** is refused at the first node that is. -/
theorem fit_eq_error_iff (hs : s.Ascends cat) (hj : j.Regular) :
    s.fit cat j = .error m ↔ ∃ before v after, s.visited cat j = before ++ v :: after ∧
      (∀ u ∈ before, u.refusal? cat = none) ∧ v.refusal? cat = some m.reason ∧
        v.steps = m.steps := by
  rw [fit_eq_all hs hj, Outcome.all_eq_error_iff]
  simp only [verdict_eq_ok_iff, verdict_eq_error_iff]

end Shape

end GraphQLCall
