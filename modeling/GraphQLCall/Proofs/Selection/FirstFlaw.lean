import GraphQLCall.Proofs.Selection.Unfolding

/-!
# Selection sets: the first flaw

A walk succeeds if the unfolding has no flaw, and else it fails with the flaw that it meets first.
The proofs follow `Shape.walk_induction`; below a shape at `path`, with the type names `way` open,
the flaws are those of `Shape.FlawBelow`.

* `Shape.Standing`   what a walk finds at a shape
* `Shape.selectAll_ok`, `Shape.selectAll_error`   what a walk over fields says of each of them
* `Shape.not_flawBelow_of_ok`, `Shape.unfolds_of_ok`   a walk that succeeds
* `Shape.firstFlaw_of_error`   a walk that fails
* `Shape.finite_visited`   a walk visits finitely many places
-/

namespace GraphQLCall.Shape

variable {cat : Catalogue} {way : List String} {path : FieldPath} {s : Shape}

/-- **What a walk finds at a shape.** -/
inductive Standing (cat : Catalogue) (way : List String) (s : Shape) : Prop
  | bare : (s.innermost cat).isObject = false → Standing cat way s
  | hollow {typeName : Option String} : s.innermost cat = .object typeName [] → Standing cat way s
  | opened {name : String} {fields : List (String × Shape)} :
      s.innermost cat = .object (some name) fields → fields ≠ [] → name ∈ way → Standing cat way s
  | fresh {typeName : Option String} {fields : List (String × Shape)} :
      s.innermost cat = .object typeName fields → fields ≠ [] → isOpen typeName way = none →
      Standing cat way s

theorem isOpen_of_mem {name : String} (h : name ∈ way) : isOpen (some name) way = some name :=
  if_pos h

theorem not_mem_of_isOpen {name : String} (h : isOpen (some name) way = none) : name ∉ way := by
  intro hm
  rw [isOpen_of_mem hm] at h
  cases h

theorem mem_openWith {typeName : Option String} {x : String} :
    x ∈ openWith typeName way ↔ x ∈ typeName.toList ∨ x ∈ way := by
  cases typeName <;> simp [openWith]

theorem standing (cat : Catalogue) (way : List String) (s : Shape) : Standing cat way s := by
  cases h : s.innermost cat with
  | scalar kind => exact .bare (by rw [h]; rfl)
  | list inner => exact .bare (by rw [h]; rfl)
  | object typeName fields =>
    by_cases hne : fields = []
    · exact .hollow (by rw [h, hne])
    · cases typeName with
      | none => exact .fresh h hne rfl
      | some name =>
        by_cases hm : name ∈ way
        · exact .opened h hne hm
        · exact .fresh h hne (if_neg hm)

/-! ### walks over fields -/

theorem selectAll_ok {fields : List (String × Shape)} {trees : List Selected}
    (h : selectAll cat way path fields = .ok trees) {name : String} {f : Shape}
    (hf : (name, f) ∈ fields) (hs : f.isStructured cat = true) :
    ∃ below, f.selectedFields cat way (path.child name) = .ok below := by
  induction fields generalizing trees with
  | nil => cases hf
  | cons entry rest ih =>
    obtain ⟨m, g⟩ := entry
    rw [selectAll] at h
    rcases List.mem_cons.mp hf with heq | hmem
    · cases heq
      rw [if_pos hs] at h
      split at h
      · cases h
      · exact ⟨_, ‹_›⟩
    · split at h
      · split at h
        · cases h
        · split at h
          · cases h
          · exact ih ‹_› hmem
      · split at h
        · cases h
        · exact ih ‹_› hmem

theorem selectAll_unfolds {fields : List (String × Shape)} {trees : List Selected}
    (hu : ∀ f ∈ fields, ∀ path below,
      f.2.selectedFields cat way path = .ok below → f.2.Unfolds cat below)
    (h : selectAll cat way path fields = .ok trees) : UnfoldsAll cat fields trees := by
  induction fields generalizing trees with
  | nil =>
    rw [selectAll] at h
    cases h
    exact .nil
  | cons entry rest ih =>
    obtain ⟨name, f⟩ := entry
    have hrest (trees : List Selected) (ht : selectAll cat way path rest = .ok trees) :
        UnfoldsAll cat rest trees := ih (fun g hg => hu g (List.mem_cons_of_mem _ hg)) ht
    rw [selectAll] at h
    split at h
    · rename_i hs
      split at h
      · cases h
      · rename_i below hb
        split at h
        · cases h
        · rename_i trees' ht
          cases h
          exact .nested hs (hu (name, f) List.mem_cons_self _ below hb) (hrest trees' ht)
    · rename_i hs
      split at h
      · cases h
      · rename_i trees' ht
        cases h
        exact .leaf (by simpa using hs) (hrest trees' ht)

/-- one of the fields fails, and those in front of it that are looked at pass -/
def FailsFirst (cat : Catalogue) (way : List String) (path : FieldPath)
    (fields : List (String × Shape)) (e : SelectionError) : Prop :=
  ∃ (i : Nat) (name : String) (f : Shape), fields[i]? = some (name, f) ∧
    f.isStructured cat = true ∧ f.selectedFields cat way (path.child name) = .error e ∧
    ∀ (j : Nat) (m : String) (g : Shape), j < i → fields[j]? = some (m, g) →
      g.isStructured cat = true → ∃ below, g.selectedFields cat way (path.child m) = .ok below

theorem FailsFirst.cons {rest : List (String × Shape)} {e : SelectionError} {name : String}
    {f : Shape} (h : FailsFirst cat way path rest e)
    (hpass : f.isStructured cat = true →
      ∃ below, f.selectedFields cat way (path.child name) = .ok below) :
    FailsFirst cat way path ((name, f) :: rest) e := by
  obtain ⟨i, name', f', hi, hs, he, hfirst⟩ := h
  refine ⟨i + 1, name', f', by simpa using hi, hs, he, fun j m g hj hg hgs => ?_⟩
  cases j with
  | zero =>
    simp only [List.getElem?_cons_zero, Option.some.injEq, Prod.mk.injEq] at hg
    obtain ⟨rfl, rfl⟩ := hg
    exact hpass hgs
  | succ j =>
    rw [List.getElem?_cons_succ] at hg
    exact hfirst j m g (by omega) hg hgs

/-- **A walk over fields fails** at the first field that fails. -/
theorem selectAll_error {fields : List (String × Shape)} {e : SelectionError}
    (h : selectAll cat way path fields = .error e) : FailsFirst cat way path fields e := by
  induction fields with
  | nil =>
    rw [selectAll] at h
    cases h
  | cons entry rest ih =>
    obtain ⟨name, f⟩ := entry
    rw [selectAll] at h
    split at h
    · rename_i hs
      split at h
      · rename_i he
        cases h
        exact ⟨0, name, f, rfl, hs, he, fun j _ _ hj => absurd hj (Nat.not_lt_zero j)⟩
      · rename_i below hb
        split at h
        · cases h
          exact (ih ‹_›).cons fun _ => ⟨below, hb⟩
        · cases h
    · rename_i hs
      split at h
      · cases h
        exact (ih ‹_›).cons fun hs' => absurd hs' hs
      · cases h

/-! ### flaws along a way -/

theorem Reaches.eq_of_nil {above : List String} {t : Shape} (h : s.Reaches cat [] above t) :
    above = [] ∧ t = s := by
  cases h
  exact ⟨rfl, rfl⟩

theorem Flaw.mono {above above' : List String} {e : SelectionError}
    (hm : ∀ x ∈ above, x ∈ above') (h : s.Flaw cat above path e) : s.Flaw cat above' path e := by
  cases h with
  | reentered object hne hopen => exact .reentered object hne (hm _ hopen)
  | hollow object => exact .hollow object
  | bare h => exact .bare h

theorem Flaw.unique {above : List String} {e e' : SelectionError} (h : s.Flaw cat above path e)
    (h' : s.Flaw cat above path e') : e = e' := by
  cases h with
  | reentered object hne _ =>
    cases h' with
    | reentered object' _ _ =>
      rw [object] at object'
      cases object'
      rfl
    | hollow object' =>
      rw [object] at object'
      cases object'
      exact absurd rfl hne
    | bare hb =>
      rw [object] at hb
      cases hb
  | hollow object =>
    cases h' with
    | reentered object' hne _ =>
      rw [object] at object'
      cases object'
      exact absurd rfl hne
    | hollow _ => rfl
    | bare _ => rfl
  | bare hb =>
    cases h' with
    | reentered object _ _ =>
      rw [object] at hb
      cases hb
    | hollow _ => rfl
    | bare _ => rfl

theorem flawBelow_nil_iff {e : SelectionError} :
    s.FlawBelow cat way path [] e ↔ s.Flaw cat way path e := by
  constructor
  · rintro ⟨above, t, hr, hf⟩
    obtain ⟨rfl, rfl⟩ := hr.eq_of_nil
    exact hf
  · intro hf
    exact ⟨[], s, .here s, hf⟩

theorem flawBelow_cons_iff {typeName : Option String} {fields : List (String × Shape)} {i : Nat}
    {name : String} {p : Place} {e : SelectionError} (object : s.innermost cat = .object typeName fields) :
    s.FlawBelow cat way path ((i, name) :: p) e ↔ ∃ f, fields[i]? = some (name, f) ∧
      f.isStructured cat = true ∧ f.FlawBelow cat (openWith typeName way) (path.child name) p e := by
  constructor
  · rintro ⟨above, t, hr, hf⟩
    cases hr with
    | step object' hi hs hr =>
      rw [object] at object'
      cases object'
      refine ⟨_, hi, hs, _, t, hr, hf.mono fun x hx => ?_⟩
      simp only [List.mem_append, mem_openWith] at hx ⊢
      tauto
  · rintro ⟨f, hi, hs, above, t, hr, hf⟩
    refine ⟨typeName.toList ++ above, t, .step object hi hs hr, hf.mono fun x hx => ?_⟩
    simp only [List.mem_append, mem_openWith] at hx ⊢
    tauto

theorem not_flaw_of_fresh {typeName : Option String} {fields : List (String × Shape)}
    {e : SelectionError} (object : s.innermost cat = .object typeName fields) (hne : fields ≠ [])
    (fresh : isOpen typeName way = none) : ¬ s.Flaw cat way path e := by
  intro hf
  cases hf with
  | reentered object' _ hopen =>
    rw [object] at object'
    cases object'
    exact not_mem_of_isOpen fresh hopen
  | hollow object' =>
    rw [object] at object'
    cases object'
    exact hne rfl
  | bare hb =>
    rw [object] at hb
    cases hb

/-! ### what a walk returns -/

/-- **A walk that succeeds meets no flaw.** -/
theorem not_flawBelow_of_ok {tree : List Selected}
    (h : s.selectedFields cat way path = .ok tree) (p : Place) (e : SelectionError) :
    ¬ s.FlawBelow cat way path p e := by
  induction way, s using walk_induction cat generalizing path tree p with
  | step way s ih =>
    cases standing cat way s with
    | bare hb =>
      rw [selectedFields_of_bare hb] at h
      cases h
    | hollow object =>
      rw [selectedFields_of_hollow object] at h
      cases h
    | opened object hne hopen =>
      rw [selectedFields_of_open object hne (isOpen_of_mem hopen)] at h
      cases h
    | fresh object hne fresh =>
      rw [selectedFields_of_fresh object hne fresh] at h
      cases p with
      | nil =>
        rw [flawBelow_nil_iff]
        exact not_flaw_of_fresh object hne fresh
      | cons step p =>
        obtain ⟨i, name⟩ := step
        rw [flawBelow_cons_iff object]
        rintro ⟨f, hi, hs, hf⟩
        have hmem := List.mem_of_getElem? hi
        obtain ⟨below, hb⟩ := selectAll_ok h hmem hs
        exact ih _ _ object fresh _ hmem hb p hf

/-- **A walk that succeeds returns the unfolding.** -/
theorem unfolds_of_ok {tree : List Selected} (h : s.selectedFields cat way path = .ok tree) :
    s.Unfolds cat tree := by
  induction way, s using walk_induction cat generalizing path tree with
  | step way s ih =>
    cases standing cat way s with
    | bare hb =>
      rw [selectedFields_of_bare hb] at h
      cases h
    | hollow object =>
      rw [selectedFields_of_hollow object] at h
      cases h
    | opened object hne hopen =>
      rw [selectedFields_of_open object hne (isOpen_of_mem hopen)] at h
      cases h
    | fresh object hne fresh =>
      rw [selectedFields_of_fresh object hne fresh] at h
      exact .object object hne
        (selectAll_unfolds (fun f hf path below hb => ih _ _ object fresh f hf hb) h)

/-- **A walk that fails does so at the first flaw.** -/
theorem firstFlaw_of_error {e : SelectionError} (h : s.selectedFields cat way path = .error e) :
    ∃ p, s.FlawBelow cat way path p e ∧
      ∀ q e', s.FlawBelow cat way path q e' → ¬ q.Before p := by
  induction way, s using walk_induction cat generalizing path with
  | step way s ih =>
    -- a flaw of the shape itself comes before all others
    have atOnce (hf : s.Flaw cat way path e) : ∃ p, s.FlawBelow cat way path p e ∧
        ∀ q e', s.FlawBelow cat way path q e' → ¬ q.Before p :=
      ⟨[], flawBelow_nil_iff.mpr hf, fun q _ _ => q.not_before_nil⟩
    cases standing cat way s with
    | bare hb =>
      rw [selectedFields_of_bare hb] at h
      cases h
      exact atOnce (.bare hb)
    | hollow object =>
      rw [selectedFields_of_hollow object] at h
      cases h
      exact atOnce (.hollow object)
    | opened object hne hopen =>
      rw [selectedFields_of_open object hne (isOpen_of_mem hopen)] at h
      cases h
      exact atOnce (.reentered object hne hopen)
    | fresh object hne fresh =>
      rw [selectedFields_of_fresh object hne fresh] at h
      obtain ⟨i, name, f, hi, hs, he, hearlier⟩ := selectAll_error h
      obtain ⟨p, hp, hfirst⟩ := ih _ _ object fresh _ (List.mem_of_getElem? hi) he
      refine ⟨(i, name) :: p, (flawBelow_cons_iff object).mpr ⟨f, hi, hs, hp⟩, ?_⟩
      intro q e' hq hbefore
      cases q with
      | nil => exact not_flaw_of_fresh object hne fresh (flawBelow_nil_iff.mp hq)
      | cons step q =>
        obtain ⟨j, m⟩ := step
        obtain ⟨g, hj, hgs, hg⟩ := (flawBelow_cons_iff object).mp hq
        rcases Place.before_cons_iff.mp hbefore with hlt | ⟨rfl, hlater⟩
        · obtain ⟨below, hb⟩ := hearlier j m g hlt hj hgs
          exact not_flawBelow_of_ok hb q e' hg
        · rw [hi] at hj
          cases hj
          exact hfirst q e' hg hlater

/-! ### the places that a walk visits -/

/-- the places of a shape at `path`, below the names `way`, that no flaw stands above -/
def VisitedBelow (cat : Catalogue) (way : List String) (path : FieldPath) (s : Shape) (p : Place) :
    Prop :=
  (∃ above t, s.Reaches cat p above t) ∧
    ∀ q e, s.FlawBelow cat way path q e → q <+: p → q = p

theorem visitedBelow_subset_of_flaw {e : SelectionError} (hf : s.Flaw cat way path e) :
    {p | s.VisitedBelow cat way path p} ⊆ {[]} := by
  rintro p ⟨_, hvisited⟩
  exact (hvisited [] e (flawBelow_nil_iff.mpr hf) List.nil_prefix).symm

/-- **A walk visits finitely many places.** -/
theorem finite_visited (cat : Catalogue) (way : List String) (path : FieldPath) (s : Shape) :
    {p | s.VisitedBelow cat way path p}.Finite := by
  induction way, s using walk_induction cat generalizing path with
  | step way s ih =>
    cases standing cat way s with
    | bare hb => exact (Set.finite_singleton _).subset (visitedBelow_subset_of_flaw (.bare hb))
    | hollow object =>
      exact (Set.finite_singleton _).subset (visitedBelow_subset_of_flaw (.hollow object))
    | opened object hne hopen =>
      exact (Set.finite_singleton _).subset
        (visitedBelow_subset_of_flaw (.reentered object hne hopen))
    | @fresh typeName fields object hne fresh =>
      have hfin (i : Fin fields.length) :
          ((fun p => (i.val, fields[i].1) :: p) '' {p | fields[i].2.VisitedBelow cat
            (openWith typeName way) (path.child fields[i].1) p}).Finite :=
        (ih _ _ object fresh fields[i] (List.getElem_mem i.isLt) _).image _
      refine ((Set.finite_singleton []).union (Set.finite_iUnion hfin)).subset ?_
      rintro p ⟨⟨above, t, hr⟩, hvisited⟩
      cases hr with
      | here => exact .inl rfl
      | @step _ f _ _ _ i name p above object' hi hs hr =>
        rw [object] at object'
        cases object'
        obtain ⟨hlt, heq⟩ := List.getElem?_eq_some_iff.mp hi
        refine .inr (Set.mem_iUnion.mpr ⟨⟨i, hlt⟩, p, ⟨⟨above, t, ?_⟩, ?_⟩, ?_⟩)
        · show Reaches cat fields[i].2 p above t
          rw [heq]
          exact hr
        · intro q e hq hprefix
          have hq' : s.FlawBelow cat way path ((i, name) :: q) e := by
            refine (flawBelow_cons_iff object).mpr ⟨f, hi, hs, ?_⟩
            have hq : fields[i].2.FlawBelow cat (openWith typeName way)
              (path.child fields[i].1) q e := hq
            rw [heq] at hq
            exact hq
          have := hvisited _ e hq' (List.prefix_cons_inj _ |>.mpr hprefix)
          exact (List.cons.inj this).2
        · show (i, fields[i].1) :: p = (i, name) :: p
          rw [heq]

end GraphQLCall.Shape
