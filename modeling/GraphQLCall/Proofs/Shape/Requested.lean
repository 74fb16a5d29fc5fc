import GraphQLCall.Proofs.Selection.Finite
import GraphQLCall.Proofs.Shape.Fit

/-!
# Shapes: only what was asked for is checked

Entries that a shape has no fields for do not matter to the check, and the place where data does not
fit is one that the selection set of the shape asks for.

* `Shape.itemShapes`, `Shape.entryShapes`   the shapes of items, and of the entry under a key
* `Shape.prune`   data without the entries that no shape at their place has a field for
* `Shape.fit_prune`   it fits, or does not fit, as the data itself
* `Mismatch.keys`   the keys on the way to a mismatch
* `Selected.Asks`   the ways of names of a selection set
* `Shape.asks_of_fit_error`   the way to a mismatch is one of them
* `Shape.fit_requested`   both
-/

namespace GraphQLCall

namespace Shape

/-- the shapes of items, at a place that has the shapes `ss` -/
def itemShapes (cat : Catalogue) (ss : List Shape) : List Shape :=
  ss.filterMap fun s => match s.head cat with
    | .list inner => some inner
    | _ => none

/-- the shapes of the entry under a key, at a place that has the shapes `ss`; without any, none of
them has a field of that name -/
def entryShapes (cat : Catalogue) (ss : List Shape) (key : String) : List Shape :=
  ss.flatMap fun s => ((s.head cat).fields.filter fun f => f.1 = key).map (·.2)

mutual

/-- **Data without the entries that no shape at their place has a field for,** at all depths and
inside lists.  A field may stand in an object more than once; so a place may have several shapes. -/
def prune (cat : Catalogue) (ss : List Shape) : Json → Json
  | .arr items => .arr (pruneItems cat (itemShapes cat ss) items)
  | .obj entries => .obj (pruneEntries cat ss entries)
  | j => j

def pruneItems (cat : Catalogue) (ss : List Shape) : List Json → List Json
  | [] => []
  | j :: rest => prune cat ss j :: pruneItems cat ss rest

def pruneEntries (cat : Catalogue) (ss : List Shape) :
    List (String × Json) → List (String × Json)
  | [] => []
  | (k, j) :: rest =>
    if (entryShapes cat ss k).isEmpty then pruneEntries cat ss rest
    else (k, prune cat (entryShapes cat ss k) j) :: pruneEntries cat ss rest

end

variable {cat : Catalogue} {s : Shape} {ss : List Shape} {j : Json} {m : Mismatch}

theorem mem_itemShapes {inner : Shape} (hs : s ∈ ss) (h : s.head cat = .list inner) :
    inner ∈ itemShapes cat ss :=
  List.mem_filterMap.mpr ⟨s, hs, by rw [h]⟩

theorem mem_entryShapes {typeName : Option String} {fields : List (String × Shape)} {key : String}
    {f : Shape} (hs : s ∈ ss) (h : s.head cat = .object typeName fields) (hf : (key, f) ∈ fields) :
    f ∈ entryShapes cat ss key := by
  refine List.mem_flatMap.mpr ⟨s, hs, List.mem_map.mpr ⟨(key, f), ?_, rfl⟩⟩
  rw [h]
  exact List.mem_filter.mpr ⟨hf, decide_eq_true rfl⟩

theorem fitItems_prune {i : Nat} {items : List Json}
    (h : ∀ j ∈ items, s.fit cat (prune cat ss j) = s.fit cat j) :
    fitItems cat s i (pruneItems cat ss items) = fitItems cat s i items := by
  induction items generalizing i with
  | nil => rfl
  | cons j rest ih =>
    obtain ⟨hj, hrest⟩ := List.forall_mem_cons.mp h
    rw [pruneItems, fitItems, fitItems, hj, ih hrest]

theorem fitEntries_prune {typeName : Option String} {fields : List (String × Shape)}
    {entries : List (String × Json)} (hs : s ∈ ss) (hhead : s.head cat = .object typeName fields)
    (h : ∀ e ∈ entries, ∀ f ∈ entryShapes cat ss e.1,
      f.fit cat (prune cat (entryShapes cat ss e.1) e.2) = f.fit cat e.2) :
    fitEntries cat fields (pruneEntries cat ss entries) = fitEntries cat fields entries := by
  induction entries with
  | nil => rfl
  | cons entry rest ih =>
    obtain ⟨k, j⟩ := entry
    obtain ⟨hj, hrest⟩ := List.forall_mem_cons.mp h
    have hbelow : ∀ f ∈ fields.filter (fun f => f.1 = k), f.2 ∈ entryShapes cat ss k := by
      intro f hf
      obtain ⟨hmem, hkey⟩ := List.mem_filter.mp hf
      exact mem_entryShapes hs hhead (of_decide_eq_true hkey ▸ hmem)
    rw [pruneEntries, fitEntries]
    split
    · rename_i hempty
      -- no shape at the place has the key, so this one has not
      have hnone : fields.filter (fun f => f.1 = k) = [] := by
        refine List.eq_nil_iff_forall_not_mem.mpr fun f hf => ?_
        have hmem := hbelow f hf
        rw [List.isEmpty_iff.mp hempty] at hmem
        cases hmem
      rw [hnone, ih hrest]
      rfl
    · rw [fitEntries, ih hrest, Outcome.all_congr fun f hf => hj f.2 (hbelow f hf)]

theorem fitLeaf_congr {head : Head} {j j' : Json} (h : j.kind = j'.kind) :
    fitLeaf head j = fitLeaf head j' := by
  have haccepts (kind : ScalarKind) : kind.accepts j = kind.accepts j' := by
    unfold ScalarKind.accepts
    rw [h]
  cases head <;> simp only [fitLeaf, haccepts, h]

/-- **Data without the entries that were not asked for** fits, or does not fit, as the data itself,
and for the same reason. -/
theorem fit_prune (hs : s ∈ ss) : s.fit cat (prune cat ss j) = s.fit cat j := by
  induction j using Json.induction generalizing s ss with
  | step j ih =>
    cases j with
    | arr items =>
      rw [prune, fit, fit]
      split
      · rename_i inner hhead
        exact fitItems_prune fun j hj => ih j (.item hj) (mem_itemShapes hs hhead)
      · exact fitLeaf_congr rfl
    | obj entries =>
      rw [prune, fit, fit]
      split
      · rename_i typeName fields hhead
        exact fitEntries_prune hs hhead fun e he f hf => ih e.2 (.entry he) hf
      · exact fitLeaf_congr rfl
    | _ => simp only [prune]

end Shape

/-! ### the place of a mismatch -/

/-- **The keys on the way to a mismatch,** the indexes of items being left out. -/
def Mismatch.keys (m : Mismatch) : List String :=
  m.steps.filterMap fun
    | .key name => some name
    | _ => none

theorem Mismatch.keys_behind_index (i : Nat) (m : Mismatch) : (m.behind (.index i)).keys = m.keys :=
  rfl

theorem Mismatch.keys_behind_key (key : String) (m : Mismatch) :
    (m.behind (.key key)).keys = key :: m.keys := rfl

theorem Mismatch.keys_of_no_steps {m : Mismatch} (h : m.steps = []) : m.keys = [] := by
  rw [keys, h, List.filterMap_nil]

/-- **The ways of names of a selection set.** -/
inductive Selected.Asks : List Selected → List String → Prop
  | leaf {tree : List Selected} {name : String} : .leaf name ∈ tree → Asks tree [name]
  | nested {tree below : List Selected} {name : String} : .nested name below ∈ tree →
      Asks tree [name]
  | step {tree below : List Selected} {name : String} {way : List String} :
      .nested name below ∈ tree → Asks below way → Asks tree (name :: way)

namespace Shape

variable {cat : Catalogue} {s : Shape} {j : Json} {m : Mismatch}

theorem innermost_eq (cat : Catalogue) (s : Shape) : s.innermost cat =
    match s.head cat with
    | .list inner => inner.innermost cat
    | h => h := by
  cases s with
  | deferred t =>
    show t.innermostHead cat = match t.head cat with
      | .list inner => inner.innermost cat
      | h => h
    induction t with
    | option inner ih => exact ih
    | boxed inner ih => exact ih
    | declared name =>
      show Ty.head cat (.declared name) = _
      cases h : Ty.head cat (.declared name) with
      | list inner =>
        simp only [Ty.head] at h
        split at h <;> cases h
      | _ => rfl
    | _ => rfl
  | _ => rfl

theorem innermost_of_list {inner : Shape} (h : s.head cat = .list inner) :
    s.innermost cat = inner.innermost cat := by
  rw [innermost_eq, h]

theorem innermost_of_object {typeName : Option String} {fields : List (String × Shape)}
    (h : s.head cat = .object typeName fields) : s.innermost cat = .object typeName fields := by
  rw [innermost_eq, h]

/-- **Data of a shape without fields** does not fit as a whole or at an item of an item. -/
theorem keys_of_fit_error (hs : s.isStructured cat = false) (h : s.fit cat j = .error m) :
    m.keys = [] := by
  induction j using Json.induction generalizing s m with
  | step j ih =>
    cases fit_error h with
    | whole hsteps => exact Mismatch.keys_of_no_steps hsteps
    | item hhead hj hi hm' hm =>
      subst hj hm
      rw [isStructured, innermost_of_list hhead] at hs
      rw [Mismatch.keys_behind_index]
      exact ih _ (.item (List.mem_of_getElem? hi)) hs hm'
    | entry hhead =>
      rw [isStructured, innermost_of_object hhead] at hs
      cases hs

theorem UnfoldsAll.of_mem {fields : List (String × Shape)} {tree : List Selected} {name : String}
    {f : Shape} (h : UnfoldsAll cat fields tree) (hf : (name, f) ∈ fields) :
    f.isStructured cat = false ∧ .leaf name ∈ tree ∨
      ∃ below, f.Unfolds cat below ∧ .nested name below ∈ tree := by
  induction fields generalizing tree with
  | nil => cases hf
  | cons entry rest ih =>
    cases h with
    | leaf hleaf hrest =>
      rcases List.mem_cons.mp hf with heq | hf
      · cases heq
        exact .inl ⟨hleaf, List.mem_cons_self⟩
      · exact (ih hrest hf).imp (.imp_right (List.mem_cons_of_mem _))
          fun ⟨below, hbelow, hmem⟩ => ⟨below, hbelow, List.mem_cons_of_mem _ hmem⟩
    | nested _ hbelow hrest =>
      rcases List.mem_cons.mp hf with heq | hf
      · cases heq
        exact .inr ⟨_, hbelow, List.mem_cons_self⟩
      · exact (ih hrest hf).imp (.imp_right (List.mem_cons_of_mem _))
          fun ⟨below, hbelow, hmem⟩ => ⟨below, hbelow, List.mem_cons_of_mem _ hmem⟩

/-- **The way to a mismatch** is one that the selection set asks for. -/
theorem asks_of_fit_error {tree : List Selected} (hs : s.Unfolds cat tree)
    (h : s.fit cat j = .error m) : m.keys = [] ∨ Selected.Asks tree m.keys := by
  induction j using Json.induction generalizing s tree m with
  | step j ih =>
    cases fit_error h with
    | whole hsteps => exact .inl (Mismatch.keys_of_no_steps hsteps)
    | @item inner items i j' m' hhead hj hi hm' hm =>
      subst hj hm
      cases hs with
      | object object hne hall =>
        rw [innermost_of_list hhead] at object
        rw [Mismatch.keys_behind_index]
        exact ih j' (.item (List.mem_of_getElem? hi)) (.object object hne hall) hm'
    | @entry typeName fields entries key f j' m' hhead hj hmem hf hm' hm =>
      subst hj hm
      cases hs with
      | object object hne hall =>
        rw [innermost_of_object hhead] at object
        cases object
        right
        rw [Mismatch.keys_behind_key]
        rcases hall.of_mem hf with ⟨hleaf, hmem'⟩ | ⟨below, hbelow, hmem'⟩
        · rw [keys_of_fit_error hleaf hm']
          exact .leaf hmem'
        · rcases ih j' (.entry hmem) hbelow hm' with hnil | hasks
          · rw [hnil]
            exact .nested hmem'
          · exact .step hmem' hasks

/-- **Only what was asked for is checked.**  Data fits, or does not fit, as it does without the
entries that the shape has no fields for; and where a shape has a selection set, data that does not
fit does so as a whole or at a place that the selection set asks for. -/
theorem fit_requested (cat : Catalogue) (s : Shape) :
    (∀ j, s.fit cat (prune cat [s] j) = s.fit cat j) ∧
    ∀ text, s.selectionSet cat = .ok text → ∃ tree, s.selectedFields cat [] .root = .ok tree ∧
      text = Selected.renderSet tree ∧
      ∀ j m, s.fit cat j = .error m → m.keys = [] ∨ Selected.Asks tree m.keys := by
  refine ⟨fun j => fit_prune List.mem_cons_self, fun text htext => ?_⟩
  obtain ⟨tree, htree, hrender⟩ := selectionSet_eq_ok_iff.mp htext
  exact ⟨tree, htree, hrender, fun j m hm => asks_of_fit_error (unfolds_of_ok htree) hm⟩

/-- a list of lists of notes with tags -/
def notesShape : Shape :=
  .list (.list (.object none [("id", .scalar .int),
    ("tags", .list (.object none [("name", .scalar .string)]))]))

/-- a note of which more is known than was asked for, and with a tag whose name is none -/
def notesData : Json :=
  .arr [.arr [.null, .obj [("author", .obj [("id", .null)]), ("id", .int 1),
    ("tags", .arr [.obj [("color", .str "red"), ("name", .bool true)]])]]]

theorem fit_requested_notes :
    notesShape.selectionSet [] = .ok "\x7bid tags \x7bname\x7d\x7d" ∧
    notesShape.fit [] notesData = .error ⟨[.index 0, .index 1, .key "tags", .index 0, .key "name"],
      .notScalar "String" .boolean⟩ ∧
    prune [] [notesShape] notesData =
      .arr [.arr [.null, .obj [("id", .int 1), ("tags", .arr [.obj [("name", .bool true)]])]]] ∧
    notesShape.fit [] (prune [] [notesShape] notesData) = notesShape.fit [] notesData ∧
    ∃ tree, notesShape.selectedFields [] [] .root = .ok tree ∧
      Selected.Asks tree ["tags", "name"] := by
  have hset : notesShape.selectionSet [] = .ok "\x7bid tags \x7bname\x7d\x7d" := by cbv
  have hfit : notesShape.fit [] notesData =
      .error ⟨[.index 0, .index 1, .key "tags", .index 0, .key "name"],
        .notScalar "String" .boolean⟩ := by rfl
  obtain ⟨hprune, hasks⟩ := fit_requested [] notesShape
  obtain ⟨tree, htree, -, hway⟩ := hasks _ hset
  exact ⟨hset, hfit, by rfl, hprune _, tree, htree, (hway _ _ hfit).resolve_left (by decide)⟩

end Shape

end GraphQLCall
