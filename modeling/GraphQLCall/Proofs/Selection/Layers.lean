import GraphQLCall.Proofs.Selection.FirstFlaw
import GraphQLCall.Proofs.Shape.Order
import GraphQLCall.Proofs.Shape.Requested
import GraphQLCall.Proofs.Types.Family
import GraphQLCall.Call.Document

/-!
# Selection sets: lists and wrappers

Of a list the fields of its items are asked for, and a wrapper shows in no shape.  So a selection set
stays the same, or fails the same, however many lists and wrappers stand around the whole and around
the fields of each object, on a way that leads back to a type too.

* `Ty.Rewrapped`   types that differ in the wrappers and lists around them
* `Shape.Relisted`, `Declaration.Relisted`, `Catalogue.Relisted`   what differs in such layers alone,
                                                                  at any depth
* `Head.Relisted`   what is left below all lists: the same object up to layers, or no object
* `Shape.selectedFields_relisted`   the walk looks at nothing else
* `layers_unobserved`   layers do not change a selection set
-/

namespace GraphQLCall

/-! ### what differs in layers alone -/

/-- **Types that differ in the wrappers and lists around them,** in any number and order. -/
inductive Ty.Rewrapped : Ty → Ty → Prop
  | same (t : Ty) : Rewrapped t t
  | option (t : Ty) : Rewrapped t (.option t)
  | boxed (t : Ty) : Rewrapped t (.boxed t)
  | list (t : Ty) : Rewrapped t (.list t)
  | symm {t t' : Ty} : Rewrapped t t' → Rewrapped t' t
  | trans {t t' t'' : Ty} : Rewrapped t t' → Rewrapped t' t'' → Rewrapped t t''

/-- **Shapes that differ in layers alone:** lists around the whole or around a field of an object
inside, and lists and wrappers around a type that is looked up. -/
inductive Shape.Relisted : Shape → Shape → Prop
  | same (s : Shape) : Relisted s s
  | list (s : Shape) : Relisted s (.list s)
  | field {typeName : Option String} {before after : List (String × Shape)} {name : String}
      {s s' : Shape} : Relisted s s' →
      Relisted (.object typeName (before ++ (name, s) :: after))
        (.object typeName (before ++ (name, s') :: after))
  | deferred {t t' : Ty} : t.Rewrapped t' → Relisted (.deferred t) (.deferred t')
  | symm {s s' : Shape} : Relisted s s' → Relisted s' s
  | trans {s s' s'' : Shape} : Relisted s s' → Relisted s' s'' → Relisted s s''

/-- fields of the same names, each of which differs in layers alone -/
abbrev Shape.FieldsRelisted : List (String × Shape) → List (String × Shape) → Prop :=
  List.Forall₂ fun f f' => f.1 = f'.1 ∧ f.2.Relisted f'.2

/-- **Fields of a record that differ in the layers around their types.**  What such a field is when
it is not read, and whether it is sent, does not matter. -/
structure FieldDecl.Rewrapped (f f' : FieldDecl) : Prop where
  name : f.name = f'.name
  inShape : f.inShape = f'.inShape
  type : f.type.Rewrapped f'.type

/-- **Declarations whose fields differ in layers alone.**  A choice has no fields that are asked for,
whatever it holds. -/
inductive Declaration.Relisted : Declaration → Declaration → Prop
  | record {r r' : RecordDecl} : List.Forall₂ FieldDecl.Rewrapped r.fields r'.fields →
      Relisted (.record r) (.record r')
  | choice (variants variants' : List (String × Content)) :
      Relisted (.choice variants) (.choice variants')
  | object {fields fields' : List (String × Shape)} : Shape.FieldsRelisted fields fields' →
      Relisted (.object fields) (.object fields')

/-- **Catalogues that differ in layers alone,** under any of their names. -/
def Catalogue.Relisted (cat cat' : Catalogue) : Prop :=
  ∀ name, Option.Rel Declaration.Relisted (cat.find? name) (cat'.find? name)

theorem Catalogue.relisted_of_entries {cat cat' : Catalogue}
    (h : List.Forall₂ (fun d d' => d.1 = d'.1 ∧ d.2.Relisted d'.2) cat cat') :
    cat.Relisted cat' := by
  intro name
  unfold find?
  induction h with
  | nil => exact .none
  | @cons d d' _ _ hd _ ih =>
    obtain ⟨n, d⟩ := d
    obtain ⟨n', d'⟩ := d'
    obtain ⟨rfl, hd⟩ := hd
    rw [Entries.find?, Entries.find?]
    split
    · exact .some hd
    · exact ih

/-! ### what is left below all lists -/

theorem Ty.Rewrapped.innermost_eq {t t' : Ty} (h : t.Rewrapped t') : t.innermost = t'.innermost := by
  induction h with
  | symm _ ih => exact ih.symm
  | trans _ _ ih ih' => exact ih.trans ih'
  | _ => rfl

namespace Shape.FieldsRelisted

variable {fields fields' fields'' : List (String × Shape)}

theorem refl (fields : List (String × Shape)) : FieldsRelisted fields fields :=
  List.forall₂_same.mpr fun f _ => ⟨rfl, .same f.2⟩

theorem symm (h : FieldsRelisted fields fields') : FieldsRelisted fields' fields :=
  (h.imp fun _ _ hf => ⟨hf.1.symm, hf.2.symm⟩).flip

theorem trans (h : FieldsRelisted fields fields') (h' : FieldsRelisted fields' fields'') :
    FieldsRelisted fields fields'' := by
  induction h generalizing fields'' with
  | nil => exact h'
  | cons hf _ ih =>
    cases h' with
    | cons hf' hrest => exact .cons ⟨hf.1.trans hf'.1, hf.2.trans hf'.2⟩ (ih hrest)

theorem of_field {before after : List (String × Shape)} {name : String} {s s' : Shape}
    (h : s.Relisted s') :
    FieldsRelisted (before ++ (name, s) :: after) (before ++ (name, s') :: after) :=
  List.rel_append (refl before) (.cons ⟨rfl, h⟩ (refl after))

theorem ne_nil (h : FieldsRelisted fields fields') (hne : fields ≠ []) : fields' ≠ [] := by
  rintro rfl
  exact hne (List.forall₂_nil_right_iff.mp h)

end Shape.FieldsRelisted

/-- **What is left below all lists** differs in layers alone: it is no object, or an object of the
same type with such fields. -/
inductive Head.Relisted : Head → Head → Prop
  | bare {h h' : Head} : h.isObject = false → h'.isObject = false → Relisted h h'
  | object {typeName : Option String} {fields fields' : List (String × Shape)} :
      Shape.FieldsRelisted fields fields' →
      Relisted (.object typeName fields) (.object typeName fields')

namespace Head.Relisted

variable {h h' h'' : Head}

theorem refl (h : Head) : h.Relisted h := by
  cases h with
  | object typeName fields => exact .object (.refl fields)
  | _ => exact .bare rfl rfl

theorem symm (hr : h.Relisted h') : h'.Relisted h := by
  cases hr with
  | bare hbare hbare' => exact .bare hbare' hbare
  | object hfields => exact .object hfields.symm

theorem isObject_eq (hr : h.Relisted h') : h.isObject = h'.isObject := by
  cases hr with
  | bare hbare hbare' => rw [hbare, hbare']
  | object _ => rfl

theorem of_object {typeName : Option String} {fields : List (String × Shape)}
    (hr : h.Relisted h') (object : h = .object typeName fields) :
    ∃ fields', h' = .object typeName fields' ∧ Shape.FieldsRelisted fields fields' := by
  cases hr with
  | bare hbare _ =>
    rw [object] at hbare
    cases hbare
  | object hfields =>
    cases object
    exact ⟨_, rfl, hfields⟩

theorem trans (hr : h.Relisted h') (hr' : h'.Relisted h'') : h.Relisted h'' := by
  cases hr with
  | bare hbare hbare' => exact .bare hbare (hr'.isObject_eq.symm.trans hbare')
  | object hfields =>
    obtain ⟨fields'', rfl, hfields'⟩ := hr'.of_object rfl
    exact .object (hfields.trans hfields')

end Head.Relisted

/-- **Below their lists,** shapes that differ in layers alone do so. -/
theorem Shape.Relisted.innermost {s s' : Shape} (h : s.Relisted s') (cat : Catalogue) :
    (s.innermost cat).Relisted (s'.innermost cat) := by
  induction h with
  | same s => exact .refl _
  | list s => exact .refl _
  | field hs => exact .object (.of_field hs)
  | @deferred t t' ht =>
    show (t.innermost.head cat).Relisted (t'.innermost.head cat)
    rw [ht.innermost_eq]
    exact .refl _
  | symm _ ih => exact ih.symm
  | trans _ _ ih ih' => exact ih.trans ih'

theorem Ty.innermost_shape (cat : Catalogue) (t : Ty) :
    (t.shape cat).innermost cat = t.innermost.head cat := by
  rw [Shape.innermost_eq, t.head_shape cat]
  exact (Shape.innermost_eq cat (.deferred t)).symm

/-! ### what names stand for -/

theorem RecordDecl.shape_rewrapped {r r' : RecordDecl}
    (h : List.Forall₂ FieldDecl.Rewrapped r.fields r'.fields) :
    List.Forall₂ (fun f f' => f.1 = f'.1 ∧ f.2.Rewrapped f'.2) r.shape r'.shape := by
  have hshown : List.Forall₂ FieldDecl.Rewrapped (r.fields.filter (·.inShape))
      (r'.fields.filter (·.inShape)) :=
    List.rel_filter (fun f f' hf => iff_of_eq (congrArg (· = true) hf.inShape)) h
  refine Entries.forall₂_sort (fun _ _ => And.left) ?_
  rw [List.forall₂_map_left_iff, List.forall₂_map_right_iff]
  exact hshown.imp fun f f' hf => ⟨hf.name, hf.type⟩

theorem Declaration.Relisted.fields? {d d' : Declaration} (h : d.Relisted d') :
    Option.Rel Shape.FieldsRelisted d.fields? d'.fields? := by
  cases h with
  | record hfields =>
    refine .some ?_
    rw [Shape.FieldsRelisted, List.forall₂_map_left_iff, List.forall₂_map_right_iff]
    exact (RecordDecl.shape_rewrapped hfields).imp fun f f' hf => ⟨hf.1, .deferred hf.2⟩
  | choice variants variants' => exact .none
  | object hfields => exact .some (Entries.forall₂_sort (fun _ _ => And.left) hfields)

section
variable {cat cat' : Catalogue} (h : cat.Relisted cat')
include h

theorem Catalogue.Relisted.fields? (name : String) :
    Option.Rel Shape.FieldsRelisted (cat.fields? name) (cat'.fields? name) := by
  have hname := h name
  rw [fields?_eq_bind, fields?_eq_bind]
  generalize cat.find? name = d at hname ⊢
  generalize cat'.find? name = d' at hname ⊢
  cases hname with
  | none => exact .none
  | some hd => exact hd.fields?

theorem Ty.head_relisted (t : Ty) : (t.head cat).Relisted (t.head cat') := by
  induction t with
  | option inner ih => exact ih
  | boxed inner ih => exact ih
  | declared name =>
    have hname := h.fields? name
    rw [head, head]
    generalize cat.fields? name = fields at hname ⊢
    generalize cat'.fields? name = fields' at hname ⊢
    cases hname with
    | none => exact .bare rfl rfl
    | some hfields => exact .object hfields
  | _ => exact .bare rfl rfl

namespace Shape

theorem innermost_relisted (s : Shape) : (s.innermost cat).Relisted (s.innermost cat') := by
  induction s using Shape.innermost.induct with
  | case1 kind => exact .refl _
  | case2 inner ih => exact ih
  | case3 typeName fields => exact .refl _
  | case4 t => exact t.innermost.head_relisted h

theorem Relisted.innermost_relisted {s s' : Shape} (hs : s.Relisted s') :
    (s.innermost cat).Relisted (s'.innermost cat') :=
  (hs.innermost cat).trans (s'.innermost_relisted h)

/-! ### the walk -/

theorem selectAll_relisted {way : List String} {fields fields' : List (String × Shape)}
    (hfields : FieldsRelisted fields fields')
    (hbelow : ∀ f ∈ fields, ∀ s', f.2.Relisted s' → ∀ path,
      f.2.selectedFields cat way path = s'.selectedFields cat' way path) (path : FieldPath) :
    selectAll cat way path fields = selectAll cat' way path fields' := by
  induction hfields with
  | nil => rw [selectAll, selectAll]
  | @cons f f' rest rest' hf _ ih =>
    obtain ⟨name, s⟩ := f
    obtain ⟨name', s'⟩ := f'
    obtain ⟨rfl, hs⟩ := hf
    obtain ⟨hs', hrest⟩ := List.forall_mem_cons.mp hbelow
    have hstructured : s.isStructured cat = s'.isStructured cat' :=
      (hs.innermost_relisted h).isObject_eq
    rw [selectAll, selectAll, hstructured, hs' s' hs (path.child name), ih hrest]

/-- **The walk looks at what is left below all lists,** at each of its places. -/
theorem selectedFields_relisted (way : List String) (s : Shape) {s' : Shape}
    (hs : (s.innermost cat).Relisted (s'.innermost cat')) (path : FieldPath) :
    s.selectedFields cat way path = s'.selectedFields cat' way path := by
  -- objects have the same name on both sides, so the way is the same, and it is enough to follow one
  induction way, s using walk_induction cat generalizing s' path with
  | step way s ih =>
    cases standing cat way s with
    | bare hbare =>
      rw [selectedFields_of_bare hbare, selectedFields_of_bare (hs.isObject_eq.symm.trans hbare)]
    | hollow object =>
      obtain ⟨fields', object', hfields⟩ := hs.of_object object
      cases hfields
      rw [selectedFields_of_hollow object, selectedFields_of_hollow object']
    | opened object hne hopen =>
      obtain ⟨fields', object', hfields⟩ := hs.of_object object
      have hopen := isOpen_of_mem hopen
      rw [selectedFields_of_open object hne hopen,
        selectedFields_of_open object' (hfields.ne_nil hne) hopen]
    | fresh object hne fresh =>
      obtain ⟨fields', object', hfields⟩ := hs.of_object object
      rw [selectedFields_of_fresh object hne fresh,
        selectedFields_of_fresh object' (hfields.ne_nil hne) fresh]
      refine selectAll_relisted h hfields (fun f hf t ht path => ?_) path
      exact ih _ _ object fresh f hf (ht.innermost_relisted h) path

theorem selectionSet_relisted {s s' : Shape}
    (hs : (s.innermost cat).Relisted (s'.innermost cat')) :
    s.selectionSet cat = s'.selectionSet cat' := by
  rw [selectionSet, selectionSet, selectedFields_relisted h [] s hs]

end Shape

end

/-- **Lists and wrappers do not change a selection set.**  It is the same text, or the same failure
at the same path for the same type, whatever lists are put around a shape or around a field of any
of its objects, or taken away from there, and whatever lists and wrappers around the type of any
field that is looked up.  The same holds of types. -/
theorem layers_unobserved (cat cat' : Catalogue) (h : cat.Relisted cat') :
    (∀ s s' : Shape, s.Relisted s' → s.selectionSet cat = s'.selectionSet cat' ∧
      ∀ c : OperationCall, { c with result := s }.selectionText cat
        = { c with result := s' }.selectionText cat') ∧
    ∀ t t' : Ty, t.Rewrapped t' →
      (t.shape cat).selectionSet cat = (t'.shape cat').selectionSet cat' := by
  refine ⟨fun s s' hs => ?_, fun t t' ht => Shape.selectionSet_relisted h ?_⟩
  · have hset : s.selectionSet cat = s'.selectionSet cat' :=
      Shape.selectionSet_relisted h (hs.innermost_relisted h)
    refine ⟨hset, fun c => ?_⟩
    simp only [OperationCall.selectionText, hset]
  · rw [Ty.innermost_shape, Ty.innermost_shape, ht.innermost_eq]
    exact Ty.head_relisted h t'.innermost

/-- a node with an identifier and a link of this type -/
def ring (next : Ty) : Catalogue :=
  [("Node", .record ⟨"Node",
    [⟨"id", "id", .text, true, true, none⟩, ⟨"next", "next", next, true, true, none⟩]⟩)]

/-- a page with items and tags of these shapes -/
def pageOf (items tags : Shape) : Shape := .object (some "Page") [("items", items), ("tags", tags)]

/-- A page of an item and a tag and a list of pages of lists of them have one text; a node that leads
back to itself, and a list of nodes with lists of them, fail at the same place. -/
theorem layers_unobserved_ring :
    let node : Ty := .declared "Node"
    let nodes : Ty := .option (.list (.boxed node))
    let item : Shape := .object (some "Item") [("id", .scalar .int)]
    let page := pageOf item (.scalar .string)
    let pages : Shape := .list (pageOf (.list (.list item)) (.list (.scalar .string)))
    (ring node).Relisted (ring nodes) ∧ page.Relisted pages ∧ node.Rewrapped nodes ∧
    page.selectionSet (ring node) = .ok "\x7bitems \x7bid\x7d tags\x7d" ∧
    pages.selectionSet (ring nodes) = .ok "\x7bitems \x7bid\x7d tags\x7d" ∧
    (node.shape (ring node)).selectionSet (ring node) = .error (.cyclic ⟨"next"⟩ "Node") ∧
    (nodes.shape (ring nodes)).selectionSet (ring nodes) = .error (.cyclic ⟨"next"⟩ "Node") := by
  intro node nodes item page pages
  have hnode : node.Rewrapped nodes :=
    (Ty.Rewrapped.boxed node).trans ((Ty.Rewrapped.list _).trans (.option _))
  have hcat : (ring node).Relisted (ring nodes) := by
    refine Catalogue.relisted_of_entries (.cons ⟨rfl, .record ?_⟩ .nil)
    exact .cons ⟨rfl, rfl, .same _⟩ (.cons ⟨rfl, rfl, hnode⟩ .nil)
  have hpage : page.Relisted pages := by
    have hitems : page.Relisted (pageOf (.list (.list item)) (.scalar .string)) :=
      @Shape.Relisted.field _ [] _ _ _ _ ((Shape.Relisted.list _).trans (.list _))
    have htags : (pageOf (.list (.list item)) (.scalar .string)).Relisted
        (pageOf (.list (.list item)) (.list (.scalar .string))) :=
      @Shape.Relisted.field _ [("items", _)] [] _ _ _ (.list _)
    exact (hitems.trans htags).trans (.list _)
  obtain ⟨hshapes, htypes⟩ := layers_unobserved (ring node) (ring nodes) hcat
  have htext : page.selectionSet (ring node) = .ok "\x7bitems \x7bid\x7d tags\x7d" := by cbv
  have hcyclic : (node.shape (ring node)).selectionSet (ring node) =
      .error (.cyclic ⟨"next"⟩ "Node") := by cbv
  exact ⟨hcat, hpage, hnode, htext, (hshapes page pages hpage).1 ▸ htext, hcyclic,
    htypes node nodes hnode ▸ hcyclic⟩

end GraphQLCall
