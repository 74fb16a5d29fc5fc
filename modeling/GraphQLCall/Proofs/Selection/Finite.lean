import Mathlib
import GraphQLCall.Proofs.Entries
import GraphQLCall.Proofs.Selection.FirstFlaw

/-!
# Selection sets: finite unfoldings

Where a type name determines the fields, a name that comes again on a way comes again without end.
So the unfolding of a shape is finite just if it has no flaw, and then it is the selection set.

* `Shape.Reaches.trans_of_mem`   a type name passed on a way is that of an object on the way
* `Shape.Unfolds.of_reaches`   the unfolding below a place is smaller by the steps that lead to it
* `Shape.Unfolds.unique`   a shape has at most one finite unfolding
* `Shape.unfolds_iff`   a coherent shape has a finite unfolding just if it has no flaw
* `Shape.Ordered`, `Shape.Reaches.ascending_fields`   fields are met in ascending order of name
* `Shape.Visited`, `Shape.finite_visited_root`   the places that a walk visits
* `Shape.selectionSet_first_flaw`   the selection set of a shape, or its first flaw
-/

namespace GraphQLCall.Shape

variable {cat : Catalogue} {s t : Shape} {p : Place} {above : List String}

/-! ### ways -/

theorem Reaches.trans_of_mem {name : String} (h : s.Reaches cat p above t) (hm : name ∈ above) :
    ∃ q r, p = q ++ r ∧ r ≠ [] ∧ ∃ aboveq a abover fields, s.Reaches cat q aboveq a ∧
      a.Reaches cat r abover t ∧ a.innermost cat = .object (some name) fields := by
  induction h with
  | here => cases hm
  | @step s f t typeName fields i m p above object hi hs hr ih =>
    rcases List.mem_append.mp hm with hown | hbelow
    · obtain rfl : typeName = some name := Option.mem_toList.mp hown
      exact ⟨[], (i, m) :: p, rfl, List.cons_ne_nil _ _, [], s, _, fields, .here s,
        .step object hi hs hr, object⟩
    · obtain ⟨q, r, rfl, hr', aboveq, a, abover, fields', hq, ha, object'⟩ := ih hbelow
      exact ⟨(i, m) :: q, r, rfl, hr', _, a, abover, fields', .step object hi hs hq, ha, object'⟩

theorem Reaches.names {P : String → Prop} (h : s.Reaches cat p above t)
    (hn : s.NamesAll P cat) : ∀ n ∈ p.names, P n := by
  induction h with
  | here => exact fun n hm => absurd hm List.not_mem_nil
  | @step s f t typeName fields i m p above object hi hs hr ih =>
    intro n hm
    rw [Place.names_cons] at hm
    rcases List.mem_cons.mp hm with rfl | hm
    · have hfield : (n, f) ∈ s.fields cat := by
        show (n, f) ∈ (s.innermost cat).fields
        rw [object]
        exact List.mem_of_getElem? hi
      exact hn [] [] s (.here s) (n, f) hfield
    · exact ih (fun q above' u hu => hn _ _ u (.step object hi hs hu)) n hm

theorem Reaches.eq_of_indices {q : Place} {above' : List String} {u : Shape}
    (h : s.Reaches cat p above t) (h' : s.Reaches cat q above' u)
    (heq : p.map Prod.fst = q.map Prod.fst) : p = q ∧ above = above' ∧ t = u := by
  induction h generalizing q above' with
  | here s =>
    obtain rfl : q = [] := List.map_eq_nil_iff.mp heq.symm
    obtain ⟨rfl, rfl⟩ := h'.eq_of_nil
    exact ⟨rfl, rfl, rfl⟩
  | @step s f t typeName fields i m p above object hi hs hr ih =>
    cases h' with
    | here => cases heq
    | @step _ f' _ _ _ j m' q above' object' hj hs' hr' =>
      rw [object] at object'
      cases object'
      obtain ⟨hij, hpq⟩ := List.cons.inj heq
      obtain rfl : i = j := hij
      rw [hi] at hj
      cases hj
      obtain ⟨rfl, rfl, rfl⟩ := ih hr' hpq
      exact ⟨rfl, rfl, rfl⟩

/-! ### finite unfoldings -/

theorem UnfoldsAll.getElem {fields : List (String × Shape)} {trees : List Selected} {i : Nat}
    {name : String} {f : Shape} (h : UnfoldsAll cat fields trees) (hi : fields[i]? = some (name, f))
    (hs : f.isStructured cat = true) :
    ∃ below, f.Unfolds cat below ∧ .nested name below ∈ trees := by
  induction fields generalizing trees i with
  | nil => cases hi
  | cons entry rest ih =>
    cases h with
    | leaf hleaf hrest =>
      cases i with
      | zero =>
        cases hi
        rw [hs] at hleaf
        cases hleaf
      | succ i =>
        obtain ⟨below, hb, hmem⟩ := ih hrest hi
        exact ⟨below, hb, List.mem_cons_of_mem _ hmem⟩
    | nested _ hbelow hrest =>
      cases i with
      | zero =>
        cases hi
        exact ⟨_, hbelow, List.mem_cons_self⟩
      | succ i =>
        obtain ⟨below, hb, hmem⟩ := ih hrest hi
        exact ⟨below, hb, List.mem_cons_of_mem _ hmem⟩

/-- **The unfolding below a place** is smaller by the steps that lead to it. -/
theorem Unfolds.of_reaches {tree : List Selected} (h : s.Unfolds cat tree)
    (hr : s.Reaches cat p above t) :
    ∃ tree', t.Unfolds cat tree' ∧ sizeOf tree' + p.length ≤ sizeOf tree := by
  induction hr generalizing tree with
  | here => exact ⟨tree, h, Nat.le_refl _⟩
  | @step s f t typeName fields i m p above object hi hs hr ih =>
    cases h with
    | object object' hne hall =>
      rw [object] at object'
      cases object'
      obtain ⟨below, hb, hmem⟩ := hall.getElem hi hs
      obtain ⟨tree', ht, hle⟩ := ih hb
      have hlt := List.sizeOf_lt_of_mem hmem
      rw [Selected.nested.sizeOf_spec] at hlt
      refine ⟨tree', ht, ?_⟩
      rw [List.length_cons]
      omega

mutual

/-- **A shape has at most one finite unfolding.** -/
theorem Unfolds.unique {s : Shape} {tree tree' : List Selected} :
    s.Unfolds cat tree → s.Unfolds cat tree' → tree = tree'
  | .object ho _ hall, .object ho' _ hall' => by
    rw [ho] at ho'
    cases ho'
    exact hall.unique hall'

theorem UnfoldsAll.unique {fields : List (String × Shape)} {trees trees' : List Selected} :
    UnfoldsAll cat fields trees → UnfoldsAll cat fields trees' → trees = trees'
  | .nil, .nil => rfl
  | .leaf _ h, .leaf _ h' => by rw [h.unique h']
  | .leaf hs _, .nested hs' _ _ => by
    rw [hs] at hs'
    cases hs'
  | .nested hs _ _, .leaf hs' _ => by
    rw [hs] at hs'
    cases hs'
  | .nested _ hb h, .nested _ hb' h' => by rw [hb.unique hb', h.unique h']

end

/-- **A coherent shape with a finite unfolding has no flaw:** below a type that is open the unfolding
would have to be as large as above it. -/
theorem not_flawAt_of_unfolds {tree : List Selected} (coherent : s.Coherent cat)
    (h : s.Unfolds cat tree) (p : Place) (e : SelectionError) : ¬ s.FlawAt cat p e := by
  rintro ⟨above, t, hr, hf⟩
  obtain ⟨below, ht, -⟩ := h.of_reaches hr
  cases hf with
  | @reentered name fields object hne hopen =>
    obtain ⟨q, r, rfl, hrne, aboveq, a, abover, fields', hq, ha, object'⟩ := hr.trans_of_mem hopen
    obtain rfl : fields = fields' := coherent _ _ t _ _ a name _ _ hr hq object object'
    obtain ⟨treea, hta, -⟩ := h.of_reaches hq
    obtain ⟨tree', ht', hle⟩ := hta.of_reaches ha
    -- both objects have the same fields, and so the same tree, but one of them is below the other
    have hsame : treea = tree' := by
      cases hta with
      | object o _ hall =>
        cases ht' with
        | object o' _ hall' =>
          rw [object'] at o
          cases o
          rw [object] at o'
          cases o'
          exact hall.unique hall'
    rw [hsame] at hle
    have hpos := List.length_pos_iff.mpr hrne
    omega
  | hollow object =>
    cases ht with
    | object object' hne _ =>
      rw [object] at object'
      cases object'
      exact hne rfl
  | bare hb =>
    cases ht with
    | object object' _ _ =>
      rw [object'] at hb
      cases hb

/-! ### what holds of all objects -/

mutual

/-- **All objects that stand in a shape** have a property. -/
def Each (P : Option String → List (String × Shape) → Prop) : Shape → Prop
  | .list inner => inner.Each P
  | .object typeName fields => P typeName fields ∧ EachOf P fields
  | _ => True

def EachOf (P : Option String → List (String × Shape) → Prop) : List (String × Shape) → Prop
  | [] => True
  | (_, f) :: rest => f.Each P ∧ EachOf P rest

end

variable {P : Option String → List (String × Shape) → Prop}

theorem eachOf_iff {fields : List (String × Shape)} :
    EachOf P fields ↔ ∀ f ∈ fields, f.2.Each P := by
  induction fields with
  | nil => simp [EachOf]
  | cons entry rest ih =>
    obtain ⟨name, f⟩ := entry
    rw [EachOf, ih, List.forall_mem_cons]

end Shape

/-- all objects that stand in the fields of a described object have a property -/
def Catalogue.Each (P : Option String → List (String × Shape) → Prop) (cat : Catalogue) : Prop :=
  ∀ name fields, (name, Declaration.object fields) ∈ cat → ∀ f ∈ fields, f.2.Each P

theorem Catalogue.Each.of_fields? {P : Option String → List (String × Shape) → Prop}
    {cat : Catalogue} (hc : cat.Each P) {name : String} {fields : List (String × Shape)}
    (h : cat.fields? name = some fields) : ∀ f ∈ fields, f.2.Each P := by
  unfold fields? find? at h
  split at h
  · cases h
    intro f hf
    obtain ⟨g, -, rfl⟩ := List.mem_map.mp hf
    exact trivial
  · rename_i described found
    cases h
    intro f hf
    exact hc name described (Entries.mem_of_find? found) f (Entries.mem_sort.mp hf)
  · cases h

theorem Catalogue.ascending_of_fields? {cat : Catalogue} {name : String}
    {fields : List (String × Shape)} (h : cat.fields? name = some fields) :
    Entries.Ascending fields := by
  unfold fields? at h
  split at h
  · cases h
    exact (Entries.ascending_sort _).map_values _
  · cases h
    exact Entries.ascending_sort _
  · cases h

namespace Shape

variable {cat : Catalogue} {s t : Shape} {p : Place} {above : List String}
  {P : Option String → List (String × Shape) → Prop}

/-- **The object below all lists** stands in the shape, or its name stands for it. -/
theorem Each.of_innermost {typeName : Option String} {fields : List (String × Shape)}
    (hs : s.Each P) (hc : cat.Each P) (h : s.innermost cat = .object typeName fields) :
    (P typeName fields ∨ ∃ name, typeName = some name ∧ cat.fields? name = some fields) ∧
      ∀ f ∈ fields, f.2.Each P := by
  induction s using Shape.innermost.induct with
  | case1 kind => cases h
  | case2 inner ih => exact ih hs h
  | case3 name entries =>
    cases h
    exact ⟨.inl hs.1, eachOf_iff.mp hs.2⟩
  | case4 t =>
    obtain ⟨name, rfl, declared⟩ := Ty.fields?_of_head h
    exact ⟨.inr ⟨name, rfl, declared⟩, hc.of_fields? declared⟩

theorem Reaches.each (h : s.Reaches cat p above t) (hs : s.Each P) (hc : cat.Each P) :
    t.Each P := by
  induction h with
  | here => exact hs
  | step object hi _ _ ih =>
    exact ih ((hs.of_innermost hc object).2 _ (List.mem_of_getElem? hi))

/-- what holds of the fields of all objects that stand in a shape and of those that names stand for
holds of the fields of all places -/
theorem Reaches.of_each {Q : List (String × Shape) → Prop} (h : s.Reaches cat p above t)
    (hs : s.Each fun _ fields => Q fields) (hc : cat.Each fun _ fields => Q fields)
    (hd : ∀ name fields, cat.fields? name = some fields → Q fields) (hnil : Q []) :
    Q (t.fields cat) := by
  show Q (t.innermost cat).fields
  cases object : t.innermost cat with
  | scalar kind => exact hnil
  | list inner => exact hnil
  | object typeName fields =>
    rcases ((h.each hs hc).of_innermost hc object).1 with hq | ⟨name, -, declared⟩
    · exact hq
    · exact hd name fields declared

theorem namesAll_of_each {Q : String → Prop} (hs : s.Each fun _ fields => ∀ f ∈ fields, Q f.1)
    (hc : cat.Each fun _ fields => ∀ f ∈ fields, Q f.1)
    (hd : ∀ name fields, cat.fields? name = some fields → ∀ f ∈ fields, Q f.1) :
    s.NamesAll Q cat := by
  intro p above t h
  exact h.of_each (Q := fun fields => ∀ f ∈ fields, Q f.1) hs hc hd
    fun f hf => absurd hf List.not_mem_nil

/-- **All objects have their fields in ascending order of name,** as `Shape.record` puts them. -/
def Ordered (s : Shape) : Prop := s.Each fun _ fields => Entries.Ascending fields

/-- **Fields are met in ascending order of name.** -/
theorem Reaches.ascending_fields (h : s.Reaches cat p above t) (hs : s.Ordered)
    (hc : cat.Each fun _ fields => Entries.Ascending fields) : Entries.Ascending (t.fields cat) :=
  h.of_each hs hc (fun _ _ => Catalogue.ascending_of_fields?) .nil

/-- **A shape is coherent if only the catalogue names objects,** as it is with derived shapes. -/
theorem coherent_of_declared (hs : s.Each fun typeName _ => typeName = none)
    (hc : cat.Each fun typeName _ => typeName = none) : s.Coherent cat := by
  intro p above t q above' t' name fields fields' hr hr' object object'
  have declared : ∀ {p above t fields}, s.Reaches cat p above t →
      t.innermost cat = .object (some name) fields → cat.fields? name = some fields := by
    intro p above t fields hr object
    rcases ((hr.each hs hc).of_innermost hc object).1 with hnone | ⟨_, heq, declared⟩
    · cases hnone
    · cases heq
      exact declared
  have heq := declared hr object
  rw [declared hr' object'] at heq
  exact (Option.some.inj heq).symm

/-! ### the selection set of a shape -/

/-- **The places that a walk visits:** no flaw stands above them. -/
def Visited (cat : Catalogue) (s : Shape) (p : Place) : Prop :=
  (∃ above t, s.Reaches cat p above t) ∧ ∀ q e, s.FlawAt cat q e → q <+: p → q = p

theorem flawBelow_root_iff (names : s.NamesAll (· ≠ "") cat) {e : SelectionError} :
    s.FlawBelow cat [] .root p e ↔ s.FlawAt cat p e := by
  unfold FlawBelow FlawAt
  refine exists_congr fun above => exists_congr fun t => and_congr_right fun hr => ?_
  rw [FieldPath.descend_root (hr.names names), List.append_nil]

theorem FirstFlaw.unique {e e' : SelectionError} (h : s.FirstFlaw cat e)
    (h' : s.FirstFlaw cat e') : e = e' := by
  obtain ⟨p, ⟨above, t, hr, hf⟩, hfirst⟩ := h
  obtain ⟨q, ⟨above', t', hr', hf'⟩, hfirst'⟩ := h'
  have heq : p.map Prod.fst = q.map Prod.fst :=
    le_antisymm (not_lt.mp (hfirst q e' ⟨above', t', hr', hf'⟩))
      (not_lt.mp (hfirst' p e ⟨above, t, hr, hf⟩))
  obtain ⟨rfl, rfl, rfl⟩ := hr.eq_of_indices hr' heq
  exact hf.unique hf'

theorem firstFlaw_of_selectedFields (names : s.NamesAll (· ≠ "") cat) {e : SelectionError}
    (h : s.selectedFields cat [] .root = .error e) : s.FirstFlaw cat e := by
  obtain ⟨p, hp, hfirst⟩ := firstFlaw_of_error h
  exact ⟨p, (flawBelow_root_iff names).mp hp,
    fun q e' hq => hfirst q e' ((flawBelow_root_iff names).mpr hq)⟩

theorem not_flawAt_of_selectedFields (names : s.NamesAll (· ≠ "") cat) {tree : List Selected}
    (h : s.selectedFields cat [] .root = .ok tree) (p : Place) (e : SelectionError) :
    ¬ s.FlawAt cat p e := by
  rw [← flawBelow_root_iff names]
  exact not_flawBelow_of_ok h p e

/-- **The fields of a selection set fail** just with the first flaw. -/
theorem selectedFields_eq_error_iff (names : s.NamesAll (· ≠ "") cat) {e : SelectionError} :
    s.selectedFields cat [] .root = .error e ↔ s.FirstFlaw cat e := by
  refine ⟨firstFlaw_of_selectedFields names, fun hf => ?_⟩
  cases h : s.selectedFields cat [] .root with
  | error e' => rw [(firstFlaw_of_selectedFields names h).unique hf]
  | ok tree =>
    obtain ⟨p, hp, -⟩ := hf
    exact absurd hp (not_flawAt_of_selectedFields names h p e)

/-- **A coherent shape has a finite unfolding** just if it has no flaw. -/
theorem unfolds_iff (names : s.NamesAll (· ≠ "") cat) (coherent : s.Coherent cat) :
    (∃ tree, s.Unfolds cat tree) ↔ ∀ p e, ¬ s.FlawAt cat p e := by
  constructor
  · rintro ⟨tree, h⟩
    exact not_flawAt_of_unfolds coherent h
  · intro hno
    cases h : s.selectedFields cat [] .root with
    | error e =>
      obtain ⟨p, hp, -⟩ := firstFlaw_of_selectedFields names h
      exact absurd hp (hno p e)
    | ok tree => exact ⟨tree, unfolds_of_ok h⟩

/-- **The fields of a selection set** are the finite unfolding. -/
theorem selectedFields_eq_ok_iff (names : s.NamesAll (· ≠ "") cat) (coherent : s.Coherent cat)
    {tree : List Selected} : s.selectedFields cat [] .root = .ok tree ↔ s.Unfolds cat tree := by
  refine ⟨unfolds_of_ok, fun hu => ?_⟩
  cases h : s.selectedFields cat [] .root with
  | error e =>
    obtain ⟨p, hp, -⟩ := firstFlaw_of_selectedFields names h
    exact absurd hp (not_flawAt_of_unfolds coherent hu p e)
  | ok tree' => rw [(unfolds_of_ok h).unique hu]

theorem selectionSet_eq_ok_iff {text : String} : s.selectionSet cat = .ok text ↔
    ∃ tree, s.selectedFields cat [] .root = .ok tree ∧ text = Selected.renderSet tree := by
  unfold selectionSet
  cases s.selectedFields cat [] .root <;> simp [Except.map, eq_comm]

theorem selectionSet_eq_error_iff {e : SelectionError} :
    s.selectionSet cat = .error e ↔ s.selectedFields cat [] .root = .error e := by
  unfold selectionSet
  cases s.selectedFields cat [] .root <;> simp [Except.map]

theorem finite_visited_root (names : s.NamesAll (· ≠ "") cat) : {p | s.Visited cat p}.Finite := by
  refine (finite_visited cat [] .root s).subset ?_
  rintro p ⟨hr, hvisited⟩
  exact ⟨hr, fun q e hq => hvisited q e ((flawBelow_root_iff names).mp hq)⟩

theorem Reaches.shown_join (h : s.Reaches cat p above t) (names : s.NamesAll (· ≠ "") cat) :
    (⟨Text.join "." p.names⟩ : FieldPath).shown
      = if p = [] then "<root>" else Text.join "." p.names := by
  rw [FieldPath.shown_join (h.names names)]
  simp only [Place.names, List.map_eq_nil_iff]

/-- **The selection set of a shape,** where type names determine fields and no field name is empty.
The walk ends.  It fails just with the flaw that stands first, depth first and by index, at the join
of the field names that lead there; and it succeeds just if the unfolding is finite and without
flaw, with the text of the unfolding.  By index is by name where all objects are in order. -/
theorem selectionSet_first_flaw (names : s.NamesAll (· ≠ "") cat) (coherent : s.Coherent cat) :
    {p | s.Visited cat p}.Finite ∧
    (∀ e, s.selectionSet cat = .error e ↔ s.FirstFlaw cat e) ∧
    (∀ text, s.selectionSet cat = .ok text ↔
      ∃ tree, s.Unfolds cat tree ∧ text = Selected.renderSet tree) ∧
    ((∃ tree, s.Unfolds cat tree) ↔ ∀ p e, ¬ s.FlawAt cat p e) ∧
    (∀ p above t, s.Reaches cat p above t →
      (⟨Text.join "." p.names⟩ : FieldPath).shown
        = if p = [] then "<root>" else Text.join "." p.names) ∧
    (s.Ordered → cat.Each (fun _ fields => Entries.Ascending fields) →
      ∀ p above t, s.Reaches cat p above t → Entries.Ascending (t.fields cat)) := by
  refine ⟨finite_visited_root names, fun e => ?_, fun text => ?_, unfolds_iff names coherent,
    fun p above t hr => hr.shown_join names, fun hs hc p above t hr => hr.ascending_fields hs hc⟩
  · rw [selectionSet_eq_error_iff, selectedFields_eq_error_iff names]
  · rw [selectionSet_eq_ok_iff]
    refine exists_congr fun tree => and_congr_left fun _ => ?_
    exact selectedFields_eq_ok_iff names coherent

/-! ### types that contain each other -/

/-- a node has its owner inside an object without a name, and an owner has nodes -/
def ownedNodes : Catalogue :=
  [("Node", .object [("id", .scalar .int),
      ("meta", .object none [("owner", .deferred (.declared "User"))])]),
   ("User", .record ⟨"User", [⟨"nodes", "nodes", .list (.declared "Node"), true, true, none⟩]⟩)]

theorem ownedNodes_each {P : Option String → List (String × Shape) → Prop}
    (h : P none [("owner", .deferred (.declared "User"))]) : ownedNodes.Each P := by
  intro name fields declared
  simp only [ownedNodes, List.mem_cons, Prod.mk.injEq, Declaration.object.injEq, reduceCtorEq,
    and_false, List.not_mem_nil, or_false] at declared
  obtain ⟨-, rfl⟩ := declared
  simp [Each, EachOf, h]

theorem ownedNodes_fields? {name : String} {fields : List (String × Shape)}
    (h : ownedNodes.fields? name = some fields) : ∀ f ∈ fields, f.1 ≠ "" := by
  have hn : name = "Node" ∨ name = "User" := by
    by_contra hn
    push Not at hn
    simp [ownedNodes, Catalogue.fields?, Catalogue.find?, Entries.find?, hn.1.symm,
      hn.2.symm] at h
  rcases hn with rfl | rfl
  · cases h
    simp [Entries.mem_sort]
  · cases h
    simp [RecordDecl.shape, Entries.mem_sort]

/-- the way from a node leads through its owner back to it -/
theorem selectionSet_ownedNodes :
    (deferred (.declared "Node")).selectionSet ownedNodes
        = .error (.cyclic ⟨"meta.owner.nodes"⟩ "Node") ∧
      (deferred (.declared "Node")).FirstFlaw ownedNodes
        (.cyclic ⟨"meta.owner.nodes"⟩ "Node") := by
  have names : (deferred (.declared "Node")).NamesAll (· ≠ "") ownedNodes :=
    namesAll_of_each trivial (ownedNodes_each (by simp)) fun _ _ => ownedNodes_fields?
  have coherent : (deferred (.declared "Node")).Coherent ownedNodes :=
    coherent_of_declared trivial (ownedNodes_each rfl)
  have run : (deferred (.declared "Node")).selectionSet ownedNodes
      = .error (.cyclic ⟨"meta.owner.nodes"⟩ "Node") := by cbv
  exact ⟨run, ((selectionSet_first_flaw names coherent).2.1 _).mp run⟩

end Shape

end GraphQLCall
