import GraphQLCall.Proofs.Call.Written
import GraphQLCall.Proofs.Outcome
import GraphQLCall.Proofs.Selection.Finite
import GraphQLCall.Proofs.Syntax.Soundness

/-!
# Calls: documents are read back

The document of a call with the selection set of its result's shape, and without texts that are
written as they are, is derived from the grammar as the call itself if the keys and the field names
in it are names; and so the call is read off it.

* `Shape.Unfolds.eachSet`   what holds of the names at each place holds in each selection set
* `spells_fields`   a selection set spells its fields
* `OperationCall.Plain`   no selection set of the caller's, no texts that are written as they are
* `OperationCall.document_ok`   what a document is put together of
* `OperationCall.derives_iff_names`   a document is derived, and read, as the call just if it is
                                      written with names
* `OperationCall.document_reads_back`   what is read off a document
-/

namespace GraphQLCall

namespace Shape

variable {cat : Catalogue} {P : List String → Prop}

theorem fields_eq {s : Shape} {typeName : Option String} {fields : List (String × Shape)}
    (h : s.innermost cat = .object typeName fields) : s.fields cat = fields := by
  unfold Shape.fields
  rw [h]
  rfl

theorem UnfoldsAll.map_name {fields : List (String × Shape)} {trees : List Selected}
    (h : UnfoldsAll cat fields trees) : trees.map Selected.name = fields.map Prod.fst := by
  induction fields generalizing trees with
  | nil =>
    cases h
    rfl
  | cons entry rest ih =>
    cases h with
    | leaf _ hrest => rw [List.map_cons, List.map_cons, ih hrest]; rfl
    | nested _ _ hrest => rw [List.map_cons, List.map_cons, ih hrest]; rfl

mutual

/-- **What holds of the field names at each place** of a shape holds in each selection set of its
unfolding. -/
theorem Unfolds.eachSet {s : Shape} {tree : List Selected} : s.Unfolds cat tree →
    (∀ p above t, s.Reaches cat p above t → P ((t.fields cat).map Prod.fst)) →
    Selected.EachSet P tree
  | .object ho _ hall, hp => by
    refine ⟨?_, hall.eachBelow fun i name f hi hs p above t hr => hp _ _ t (.step ho hi hs hr)⟩
    have h := hp [] [] s (.here s)
    rwa [fields_eq ho, ← hall.map_name] at h

theorem UnfoldsAll.eachBelow {fields : List (String × Shape)} {trees : List Selected} :
    UnfoldsAll cat fields trees →
    (∀ (i : Nat) (name : String) (f : Shape), fields[i]? = some (name, f) →
      f.isStructured cat = true →
      ∀ p above t, f.Reaches cat p above t → P ((t.fields cat).map Prod.fst)) →
    Selected.AllEachBelow P trees
  | .nil, _ => trivial
  | .leaf _ hrest, hp =>
    ⟨trivial, hrest.eachBelow fun i name f hi =>
      hp (i + 1) name f (List.getElem?_cons_succ.trans hi)⟩
  | .nested hs hbelow hrest, hp =>
    ⟨hbelow.eachSet (hp 0 _ _ rfl hs), hrest.eachBelow fun i name f hi =>
      hp (i + 1) name f (List.getElem?_cons_succ.trans hi)⟩

end

theorem allEachBelow_iff {trees : List Selected} :
    Selected.AllEachBelow P trees ↔ ∀ s ∈ trees, s.EachBelow P := by
  induction trees with
  | nil => simp [Selected.AllEachBelow]
  | cons s rest ih => rw [Selected.AllEachBelow, ih, List.forall_mem_cons]

theorem Reaches.of_eachSet {s t : Shape} {p : Place} {above : List String} {tree : List Selected}
    (hr : s.Reaches cat p above t) (h : s.Unfolds cat tree) (hp : Selected.EachSet P tree) :
    P ((t.fields cat).map Prod.fst) := by
  induction hr generalizing tree with
  | here s =>
    cases h with
    | object ho _ hall =>
      rw [fields_eq ho, ← hall.map_name]
      exact hp.1
  | step object hi hs _ ih =>
    cases h with
    | object ho _ hall =>
      rw [object] at ho
      cases ho
      obtain ⟨below, hbelow, hmem⟩ := hall.getElem hi hs
      exact ih hbelow (allEachBelow_iff.mp hp.2 _ hmem)

/-- **The selection sets of an unfolding** have the field names of its places. -/
theorem Unfolds.eachSet_iff {s : Shape} {tree : List Selected} (h : s.Unfolds cat tree) :
    Selected.EachSet P tree ↔
      ∀ p above t, s.Reaches cat p above t → P ((t.fields cat).map Prod.fst) :=
  ⟨fun hp _ _ _ hr => hr.of_eachSet h hp, h.eachSet⟩

theorem Unfolds.nonempty {s : Shape} {tree : List Selected} (h : s.Unfolds cat tree) :
    Selected.EachSet (· ≠ []) tree := by
  refine h.eachSet fun p above t hr => ?_
  obtain ⟨_, ht, -⟩ := h.of_reaches hr
  cases ht with
  | object ho hne _ =>
    rw [fields_eq ho]
    exact mt List.map_eq_nil_iff.mp hne

theorem Unfolds.names_iff {Q : String → Prop} {s : Shape} {tree : List Selected}
    (h : s.Unfolds cat tree) :
    Selected.EachSet (fun names => ∀ n ∈ names, Q n) tree ↔ s.NamesAll Q cat := by
  simp only [h.eachSet_iff, List.forall_mem_map]
  rfl

theorem Unfolds.ascending {s : Shape} {tree : List Selected} (h : s.Unfolds cat tree)
    (hs : s.Ordered) (hc : cat.Each fun _ fields => Entries.Ascending fields) :
    Selected.EachSet (fun names => names.Pairwise (· ≤ ·)) tree :=
  h.eachSet fun _ _ _ hr => List.pairwise_map.mpr (hr.ascending_fields hs hc)

end Shape

/-! ### selection sets -/

mutual

theorem spells_field {s : Selected} (name : isName s.name)
    (names : s.EachBelow fun names => ∀ n ∈ names, isName n) : Spells s.render s.lexemes := by
  match s with
  | .leaf n => exact .lexeme (.name name)
  | .nested n below =>
    have hset : Spells ("\x7b" ++ Selected.renderAll below ++ "\x7d")
        (.mark '{' :: (Selected.allLexemes below ++ [.mark '}'])) :=
      .enclosed rfl rfl (by decide) (by decide)
        (spells_fields (List.forall_mem_map.mp names.1) names.2)
    have heq : (Selected.nested n below).render
        = n ++ " " ++ ("\x7b" ++ Selected.renderAll below ++ "\x7d") := by
      have hbrace : " \x7b" = " " ++ "\x7b" := rfl
      simp only [Selected.render, hbrace, String.append_assoc]
    rw [heq]
    exact .separated rfl Spells.isIgnored_blank (.lexeme (.name name)) hset

/-- **The text of fields spells them.** -/
theorem spells_fields {fields : List Selected} (names : ∀ s ∈ fields, isName s.name)
    (below : Selected.AllEachBelow (fun names => ∀ n ∈ names, isName n) fields) :
    Spells (Selected.renderAll fields) (Selected.allLexemes fields) := by
  match fields with
  | [] => exact .empty
  | [s] =>
    have hs := spells_field (names s List.mem_cons_self) below.1
    rwa [← List.append_nil s.lexemes] at hs
  | s :: t :: rest =>
    have hs := spells_field (names s List.mem_cons_self) below.1
    have hrest : Spells (Selected.renderAll (t :: rest)) (Selected.allLexemes (t :: rest)) :=
      spells_fields (fun u hu => names u (List.mem_cons_of_mem _ hu)) below.2
    exact .separated rfl Spells.isIgnored_blank hs hrest

end

/-- **A selection set spells its fields.** -/
theorem spells_renderSet {set : List Selected}
    (names : Selected.EachSet (fun names => ∀ n ∈ names, isName n) set) :
    Spells (Selected.renderSet set) (.mark '{' :: (Selected.allLexemes set ++ [.mark '}'])) :=
  .enclosed rfl rfl (by decide) (by decide)
    (spells_fields (List.forall_mem_map.mp names.1) names.2)

mutual

theorem eachBelow_of_lexemes (s : Selected) (h : ∀ n, .name n ∈ s.lexemes → isName n) :
    isName s.name ∧ s.EachBelow fun names => ∀ n ∈ names, isName n := by
  match s with
  | .leaf n => exact ⟨h n List.mem_cons_self, trivial⟩
  | .nested n below =>
    have hbelow := allEachBelow_of_lexemes below fun m hm =>
      h m (List.mem_cons_of_mem _ (List.mem_cons_of_mem _ (List.mem_append_left _ hm)))
    exact ⟨h n List.mem_cons_self, List.forall_mem_map.mpr hbelow.1, hbelow.2⟩

theorem allEachBelow_of_lexemes (fields : List Selected)
    (h : ∀ n, .name n ∈ Selected.allLexemes fields → isName n) :
    (∀ s ∈ fields, isName s.name) ∧
      Selected.AllEachBelow (fun names => ∀ n ∈ names, isName n) fields := by
  match fields with
  | [] => exact ⟨fun s hs => absurd hs List.not_mem_nil, trivial⟩
  | s :: rest =>
    have hs := eachBelow_of_lexemes s fun n hn => h n (List.mem_append_left _ hn)
    have hrest := allEachBelow_of_lexemes rest fun n hn =>
      h n (List.mem_append_right _ hn)
    exact ⟨List.forall_mem_cons.mpr ⟨hs.1, hrest.1⟩, hs.2, hrest.2⟩

end

/-! ### documents -/

namespace OperationCall

variable {cat : Catalogue} {c : OperationCall} {text : String}

/-- **A call of the shape of its result,** without texts that are written as they are. -/
structure Plain (c : OperationCall) : Prop where
  shaped : c.selectionOverride = none
  quoted : ∀ v ∈ c.arguments, v.markers.raw = false

/-- the call as a syntax tree, with the fields of its selection set -/
def toDocument (c : OperationCall) (tree : List Selected) : Document :=
  ⟨c.kind, c.name, c.written, tree⟩

theorem isName_of_checkName {role : NameRole} {name : String}
    (h : checkName role name = .ok ()) : isName name := by
  unfold checkName at h
  split at h
  · assumption
  · cases h

theorem isName_of_all {role : NameRole} {names : List String}
    (h : Outcome.all (checkName role) names = .ok ()) : ∀ n ∈ names, isName n :=
  fun n hn => isName_of_checkName (Outcome.all_eq_ok_iff.mp h n hn)

/-- **What a document is put together of.** -/
theorem document_ok (shaped : c.selectionOverride = none) (h : c.document cat = .ok text) :
    isName c.name ∧ (∀ v ∈ c.arguments, isName v.argumentName) ∧
    ∃ tree arguments, c.result.Unfolds cat tree ∧
      Variable.encodeAll c.arguments = .ok arguments ∧
      text = c.kind.keyword ++ "\x7b" ++ c.name ++ arguments ++ " " ++
        Selected.renderSet tree ++ "\x7d" := by
  unfold document at h
  split at h
  · cases h
  rename_i hnames
  split at h
  · cases h
  rename_i selection hselection
  split at h
  · cases h
  rename_i arguments harguments
  cases h
  have hchecked : isName c.name ∧ ∀ v ∈ c.arguments, isName v.argumentName := by
    unfold checkNames at hnames
    split at hnames
    · cases hnames
    · rename_i hname
      exact ⟨isName_of_checkName hname, List.forall_mem_map.mp (isName_of_all hnames)⟩
  obtain ⟨tree, htree, rfl⟩ : ∃ tree, c.result.selectedFields cat [] .root = .ok tree ∧
      selection = Selected.renderSet tree := by
    unfold selectionText at hselection
    rw [shaped] at hselection
    cases hs : c.result.selectionSet cat with
    | error e =>
      rw [hs] at hselection
      cases hselection
    | ok text =>
      rw [hs] at hselection
      cases hselection
      exact Shape.selectionSet_eq_ok_iff.mp hs
  exact ⟨hchecked.1, hchecked.2, tree, arguments, Shape.unfolds_of_ok htree, harguments, rfl⟩

theorem isName_keyword (kind : OperationKind) : isName kind.keyword := by cases kind <;> decide

/-- **The parts of a document spell the call.** -/
theorem spells_document {tree : List Selected} {arguments : String} (name : isName c.name)
    (spelled : Spells arguments (Document.argumentLexemes c.written))
    (clause : arguments = "" ∨ ∃ t, arguments = "(" ++ t)
    (fields : Selected.EachSet (fun names => ∀ n ∈ names, isName n) tree) :
    Spells (c.kind.keyword ++ "\x7b" ++ c.name ++ arguments ++ " " ++
      Selected.renderSet tree ++ "\x7d") (c.toDocument tree).lexemes := by
  have hclose : Spells "\x7d" [.mark '}'] := .mark rfl (by decide)
  have hset : Spells (" " ++ (Selected.renderSet tree ++ "\x7d"))
      (.mark '{' :: (Selected.allLexemes tree ++ [.mark '}', .mark '}'])) := by
    have h := (spells_renderSet fields).append hclose
      fun rest _ => Spells.apart_of_head rfl (.inl (by decide)) rest
    rw [List.cons_append, List.append_assoc] at h
    exact .ignored_append Spells.isIgnored_blank h
  have hcall : Spells (arguments ++ (" " ++ (Selected.renderSet tree ++ "\x7d")))
      (Document.argumentLexemes c.written ++
        .mark '{' :: (Selected.allLexemes tree ++ [.mark '}', .mark '}'])) := by
    refine spelled.append hset fun rest _ => ?_
    rw [String.toList_append, List.append_assoc]
    exact Spells.apart_of_head (c := ' ') rfl (.inr (by decide)) _
  have hname : Spells (c.name ++ (arguments ++ (" " ++ (Selected.renderSet tree ++ "\x7d"))))
      (.name c.name :: (Document.argumentLexemes c.written ++
        .mark '{' :: (Selected.allLexemes tree ++ [.mark '}', .mark '}']))) := by
    refine Spells.append (.lexeme (.name name)) hcall fun rest _ => ?_
    rw [String.toList_append, List.append_assoc]
    rcases clause with rfl | ⟨t, rfl⟩
    · rw [String.toList_append, List.append_assoc, String.toList_empty, List.nil_append]
      exact Spells.apart_of_head (c := ' ') rfl (.inr (by decide)) _
    · rw [String.toList_append, List.append_assoc]
      exact Spells.apart_of_head (c := '(') rfl (.inl (by decide)) _
  have hopen := Spells.mark_append (s := "\x7b") (c := '{') rfl (by decide) hname
  simp only [String.append_assoc]
  refine Spells.append (.lexeme (.name (isName_keyword c.kind))) hopen fun rest _ => ?_
  rw [String.toList_append, List.append_assoc]
  exact Spells.apart_of_head (c := '{') rfl (.inl (by decide)) _

/-- **A document is derived from the grammar as the call,** if what is written has names for names. -/
theorem derives_of_names {tree : List Selected} {arguments : String} (plain : c.Plain)
    (name : isName c.name) (names : ∀ v ∈ c.arguments, isName v.argumentName)
    (unfolds : c.result.Unfolds cat tree) (encoded : Variable.encodeAll c.arguments = .ok arguments)
    (keys : ∀ e ∈ c.written, e.2.Named) (fields : c.result.NamesAll (isName ·) cat) :
    (c.toDocument tree).Derives (c.kind.keyword ++ "\x7b" ++ c.name ++ arguments ++ " " ++
      Selected.renderSet tree ++ "\x7d") := by
  obtain ⟨spelled, clause⟩ := spells_encodeAll plain.quoted names keys encoded
  have hspells := spells_document name spelled (clause.imp And.left And.left)
    (unfolds.names_iff.mpr fields)
  have hlexes := hspells [] [] apart_nil .nil
  rw [List.append_nil, List.append_nil] at hlexes
  exact ⟨unfolds.nonempty, hlexes⟩

/-- **A document is derived from the grammar as the call,** and is read as the call, just if all keys
and field names that are written are names.  The name of the operation and those of the arguments are
looked at before a call is written; keys and field names are not. -/
theorem derives_iff_names (plain : c.Plain) (h : c.document cat = .ok text) :
    ∃ tree, c.result.Unfolds cat tree ∧
      ((c.toDocument tree).Derives text ↔
        (∀ e ∈ c.written, e.2.Named) ∧ c.result.NamesAll (isName ·) cat) ∧
      (Document.read text = some (c.toDocument tree) ↔
        (∀ e ∈ c.written, e.2.Named) ∧ c.result.NamesAll (isName ·) cat) := by
  obtain ⟨name, names, tree, arguments, unfolds, encoded, rfl⟩ := document_ok plain.shaped h
  refine ⟨tree, unfolds, ?_⟩
  rw [Document.read_iff, and_self_iff]
  refine ⟨fun hderives => ?_, fun hnames =>
    derives_of_names plain name names unfolds encoded hnames.1 hnames.2⟩
  have hname := hderives.lexes.isName_of_mem
  have htail (n : String) (hn : .name n ∈ Document.argumentLexemes c.written ++
      .mark '{' :: (Selected.allLexemes tree ++ [.mark '}', .mark '}'])) : isName n :=
    hname n (List.mem_cons_of_mem _ (List.mem_cons_of_mem _ (List.mem_cons_of_mem _ hn)))
  constructor
  · have hentries : Value.EntriesNamed c.written := by
      refine Value.entriesNamed_of_lexemes fun n hn => htail n (List.mem_append_left _ ?_)
      cases hw : c.written with
      | nil =>
        rw [hw] at hn
        cases hn
      | cons e es =>
        rw [hw] at hn
        exact List.mem_cons_of_mem _ (List.mem_append_left _ hn)
    exact hentries.forall
  · have hfields := allEachBelow_of_lexemes tree fun n hn =>
      htail n (List.mem_append_right _ (List.mem_cons_of_mem _ (List.mem_append_left _ hn)))
    exact unfolds.names_iff.mp ⟨List.forall_mem_map.mpr hfields.1, hfields.2⟩

theorem namesAll_of_shape {Q : String → Prop} {s : Shape}
    (hs : s.Each fun _ fields => ∀ f ∈ fields, Q f.1) : s.NamesAll Q [] :=
  Shape.namesAll_of_each hs (fun _ _ h => absurd h List.not_mem_nil) fun _ _ h => by cases h

def blankKey : OperationCall :=
  ⟨.query, "find", .object none [("id", .scalar .id)], none,
    [.plain "filter" (.object [("a b", .int 1)]) (.scalar .any)]⟩

theorem blankKey_document :
    blankKey.document [] = .ok "query\x7bfind(filter: \x7ba b: 1\x7d) \x7bid\x7d\x7d" ∧
    (∀ d, ¬ Document.Derives d "query\x7bfind(filter: \x7ba b: 1\x7d) \x7bid\x7d\x7d") ∧
    ¬ ∀ e ∈ blankKey.written, e.2.Named := by
  have plain : blankKey.Plain := ⟨rfl, by simp [blankKey, Variable.plain, Markers.default]⟩
  have hdocument : blankKey.document []
      = .ok "query\x7bfind(filter: \x7ba b: 1\x7d) \x7bid\x7d\x7d" := by cbv
  have hread : (Document.read
      "query\x7bfind(filter: \x7ba b: 1\x7d) \x7bid\x7d\x7d").isNone = true := by decide +kernel
  have hno (d : Document) :
      ¬ d.Derives "query\x7bfind(filter: \x7ba b: 1\x7d) \x7bid\x7d\x7d" := by
    intro hderives
    rw [Document.read_iff.mpr hderives] at hread
    cases hread
  have hfields : blankKey.result.NamesAll (isName ·) [] :=
    namesAll_of_shape ⟨by decide, trivial, trivial⟩
  refine ⟨hdocument, hno, fun hkeys => ?_⟩
  obtain ⟨tree, -, hiff, -⟩ := derives_iff_names plain hdocument
  exact hno _ (hiff.mpr ⟨hkeys, hfields⟩)

theorem prefix_iff {p t u : String} {w : List (String × Value)}
    (clause : t = "" ∧ w = [] ∨ (∃ v, t = "(" ++ v) ∧ w ≠ []) :
    (p ++ "(").toList <+: (p ++ t ++ " " ++ u).toList ↔ w ≠ [] := by
  simp only [String.toList_append, List.append_assoc, List.prefix_append_right_inj]
  rcases clause with ⟨rfl, rfl⟩ | ⟨⟨v, rfl⟩, hw⟩
  · simp
  · simp [hw]

theorem written_named (keys : ∀ v ∈ c.arguments, v.value.Named) : ∀ e ∈ c.written, e.2.Named := by
  intro e he
  obtain ⟨v, hv, hwritten⟩ := List.mem_filterMap.mp he
  unfold Variable.written? at hwritten
  split at hwritten
  · cases hwritten
  · cases hwritten
    exact (keys v hv).prune .root

theorem derives_of_document (plain : c.Plain) (keys : ∀ v ∈ c.arguments, v.value.Named)
    (fields : c.result.NamesAll (isName ·) cat) (h : c.document cat = .ok text) :
    ∃ tree, c.result.Unfolds cat tree ∧ (c.toDocument tree).Derives text ∧
      ((c.kind.keyword ++ "\x7b" ++ c.name ++ "(").toList <+: text.toList ↔ c.written ≠ []) := by
  obtain ⟨name, names, tree, arguments, unfolds, encoded, rfl⟩ := document_ok plain.shaped h
  refine ⟨tree, unfolds,
    derives_of_names plain name names unfolds encoded (written_named keys) fields, ?_⟩
  have clause := (spells_encodeAll plain.quoted names (written_named keys) encoded).2
  have hprefix := prefix_iff (p := c.kind.keyword ++ "\x7b" ++ c.name)
    (u := Selected.renderSet tree ++ "\x7d") clause
  rw [← String.append_assoc] at hprefix
  exact hprefix

/-- **A document is read back.**  What is read off it is the kind of the call, its name, the
arguments that are not null, in their order and without the fields that are null or ignored, and the
tree of its result's field names; that is the one syntax tree that the grammar has for the text.  So
calls with one document agree in all of that. -/
theorem document_reads_back (plain : c.Plain) (keys : ∀ v ∈ c.arguments, v.value.Named)
    (fields : c.result.NamesAll (isName ·) cat) (h : c.document cat = .ok text) :
    ∃ tree, c.result.Unfolds cat tree ∧
      Document.read text = some ⟨c.kind, c.name, c.written, tree⟩ ∧
      (∀ d : Document, d.Derives text ↔ d = ⟨c.kind, c.name, c.written, tree⟩) ∧
      ((c.kind.keyword ++ "\x7b" ++ c.name ++ "(").toList <+: text.toList ↔ c.written ≠ []) ∧
      (c.result.Ordered → cat.Each (fun _ fields => Entries.Ascending fields) →
        Selected.EachSet (fun names => names.Pairwise (· ≤ ·)) tree) ∧
      ∀ (cat' : Catalogue) (c' : OperationCall), c'.Plain →
        (∀ v ∈ c'.arguments, v.value.Named) → c'.result.NamesAll (isName ·) cat' →
        c'.document cat' = .ok text →
        c'.kind = c.kind ∧ c'.name = c.name ∧ c'.written = c.written ∧
          c'.result.Unfolds cat' tree := by
  obtain ⟨tree, unfolds, derives, clause⟩ := derives_of_document plain keys fields h
  have hread := Document.read_iff.mpr derives
  have honly (d : Document) : d.Derives text ↔ d = c.toDocument tree := by
    rw [← Document.read_iff, hread, Option.some.injEq, eq_comm]
  refine ⟨tree, unfolds, hread, honly, clause, unfolds.ascending, ?_⟩
  intro cat' c' plain' keys' fields' h'
  obtain ⟨tree', unfolds', derives', -⟩ := derives_of_document plain' keys' fields' h'
  obtain ⟨hkind, hname, hwritten, rfl⟩ := Document.mk.inj ((honly _).mp derives')
  exact ⟨hkind, hname, hwritten, unfolds'⟩

/-- a call with an escaped text, a null field, an ignored field and a negative zero -/
def beerCall : OperationCall :=
  ⟨.mutation, "brew", .object none [("id", .scalar .id),
      ("owner", .list (.object none [("name", .scalar .string)]))], none,
    [⟨"note", .str "a \"b\"\n", .scalar .any, .default⟩,
      ⟨"none", .null, .scalar .any, .default⟩,
      ⟨"beer", .object [("abv", .float ⟨true, 0⟩), ("hops", .list [.null, .int (-7)]),
        ("rank", .null), ("secret", .int 1)], .scalar .any, ⟨none, ["secret"], false⟩⟩]⟩

theorem beerCall_reads_back : ∃ text, beerCall.document [] = .ok text ∧
    Document.read text = some ⟨.mutation, "brew",
      [("note", .str "a \"b\"\n"),
        ("beer", .object [("abv", .float ⟨true, 0⟩), ("hops", .list [.null, .int (-7)])])],
      [.leaf "id", .nested "owner" [.leaf "name"]]⟩ := by
  have plain : beerCall.Plain := ⟨rfl, by simp [beerCall, Markers.default]⟩
  have keys : ∀ v ∈ beerCall.arguments, v.value.Named := by
    simp [beerCall, Value.Named, Value.EntriesNamed, Value.ItemsNamed]
    decide
  have fields : beerCall.result.NamesAll (isName ·) [] :=
    namesAll_of_shape ⟨by decide, trivial, ⟨by decide, trivial, trivial⟩, trivial⟩
  have hnames : beerCall.checkNames = .ok () := by decide +kernel
  have hselection : beerCall.selectionText [] = .ok "\x7bid owner \x7bname\x7d\x7d" := by cbv
  have harguments : Variable.encodeAll beerCall.arguments = .ok
      "(note: \"a \\\"b\\\"\\n\", beer: \x7babv: -0.0, hops: [null, -7]\x7d)" := by decide +kernel
  have hdocument : beerCall.document [] = .ok ("mutation\x7bbrew" ++
      "(note: \"a \\\"b\\\"\\n\", beer: \x7babv: -0.0, hops: [null, -7]\x7d)" ++ " " ++
      "\x7bid owner \x7bname\x7d\x7d" ++ "\x7d") := by
    rw [document, hnames, hselection]
    simp only [harguments]
    rfl
  have unfolds : beerCall.result.Unfolds [] [.leaf "id", .nested "owner" [.leaf "name"]] :=
    .object rfl (List.cons_ne_nil _ _) (.leaf rfl (.nested rfl
      (.object rfl (List.cons_ne_nil _ _) (.leaf rfl .nil)) .nil))
  obtain ⟨tree, htree, hread, -⟩ := document_reads_back plain keys fields hdocument
  rw [htree.unique unfolds] at hread
  exact ⟨_, hdocument, hread⟩

end OperationCall

end GraphQLCall
