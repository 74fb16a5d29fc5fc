import GraphQLCall.Proofs.Types.Projection

/-!
# Types: the values that data is sent as

Data of a type is sent as a value of the type's shape.  The shape of a record has the fields that
are asked for and its value those that are sent, and a mark on a field can take it out of one of the
two or of both.

* `FieldItem.marks`, `Item.namesMarked`   the marks of a field; the names of fields with one mark only
* `Catalogue.DescribedBy`   the families whose records are all described
* `Catalogue.Has`   the data of a type
* `ScalarKind.Takes`, `Value.Conforms`   the values of a scalar kind and those of a shape
* `Item.names_of_declare`   the names of the fields of a described record
* `RecordDecl.mem_sent_iff`, `RecordDecl.mem_asked_iff`   the names in its value and in its shape
* `RecordDecl.Distinct.mem_difference_iff`   the names on one side only
* `Datum.lower_conforms`   data of a type is sent as a value of its shape
-/

namespace GraphQLCall

open Number

/-! ### the marks of a field -/

section
variable {τ : Type}

/-- **The marks of a field,** each once. -/
def FieldItem.marks (f : FieldItem τ) : List String :=
  skipMarks.filter fun m => (serdeAttrs f.attrs).any (·.name = m)

/-- **The names of the fields that have one mark and no other.** -/
def Item.namesMarked (i : Item τ) (mark : String) : List String :=
  (i.fields.filter fun f => f.marks = [mark]).map (·.givenName i.rule?)

/-- **No two fields that are asked for or sent have the same name.** -/
def Item.Distinct (i : Item τ) : Prop :=
  ((i.fields.filter fun f => f.isRead || f.isSent).map (·.givenName i.rule?)).Nodup

instance (i : Item τ) : Decidable i.Distinct := inferInstanceAs (Decidable (List.Nodup _))

theorem FieldItem.marks_eq_read_iff (f : FieldItem τ) :
    f.marks = ["skip_deserializing"] ↔ f.isSent = true ∧ f.isRead = false := by
  unfold marks skipMarks isSent isRead
  simp only [List.filter_cons, List.filter_nil]
  cases (serdeAttrs f.attrs).any (·.name = "skip") <;>
    cases (serdeAttrs f.attrs).any (·.name = "skip_deserializing") <;>
    cases (serdeAttrs f.attrs).any (·.name = "skip_serializing") <;> decide

theorem FieldItem.marks_eq_send_iff (f : FieldItem τ) :
    f.marks = ["skip_serializing"] ↔ f.isRead = true ∧ f.isSent = false := by
  unfold marks skipMarks isSent isRead
  simp only [List.filter_cons, List.filter_nil]
  cases (serdeAttrs f.attrs).any (·.name = "skip") <;>
    cases (serdeAttrs f.attrs).any (·.name = "skip_deserializing") <;>
    cases (serdeAttrs f.attrs).any (·.name = "skip_serializing") <;> decide

end

/-! ### the data of a type -/

namespace Catalogue

/-- **A family whose records are all described,** each under its name in the family. -/
structure DescribedBy (cat : Catalogue) (items : List (String × Item Ty)) : Prop where
  declares : ∀ name r, cat.find? name = some (.record r) →
    ∃ i, Entries.find? name items = some i ∧ i.declare = .ok r ∧ i.Distinct

/-- **The data of a type.**  A reference is a box here, and a slice a list. -/
inductive Has (cat : Catalogue) : Ty → Datum → Prop
  | int {kind : IntKind} {n : Int} : kind.holds n = true → Has cat (.int kind) (.int n)
  | single (x : Single) : Has cat .single (.single x)
  | double (x : Double) : Has cat .double (.double x)
  | bool (b : Bool) : Has cat .bool (.bool b)
  | char (c : Char) : Has cat .char (.char c)
  | text (s : String) : Has cat .text (.text s)
  | json (j : Json) : Has cat .json (.json j)
  | absent (inner : Ty) : Has cat (.option inner) .absent
  | present {inner : Ty} {d : Datum} : Has cat inner d → Has cat (.option inner) d
  | boxed {inner : Ty} {d : Datum} : Has cat inner d → Has cat (.boxed inner) d
  | list {inner : Ty} {ds : List Datum} : (∀ d ∈ ds, Has cat inner d) →
      Has cat (.list inner) (.list ds)
  | record {name : String} {r : RecordDecl} {ds : List Datum} :
      cat.find? name = some (.record r) → ds.length = r.fields.length →
      (∀ p ∈ r.fields.zip ds, Has cat p.1.type p.2) →
      Has cat (.declared name)
        (.record ((r.fields.zip ds).map fun p => (p.1.name, p.1.inValue, p.2)))

end Catalogue

/-! ### the values of a shape -/

/-- **The values of a scalar kind,** null apart. -/
def ScalarKind.Takes : ScalarKind → Value → Prop
  | .any, _ => True
  | .boolean, .bool _ => True
  | .int, .int _ => True
  | .float, .float _ => True
  | .string, .str _ => True
  | _, _ => False

/-- **The values of a shape.**  Null is one of each.  In an object each field that is asked for and
is there is a value of the field's shape; the names in it that are not asked for are those of the
fields that are marked not to be read and nothing else, and the names that are asked for and are not
in it those of the fields that are marked not to be sent and nothing else. -/
inductive Value.Conforms (cat : Catalogue) (items : List (String × Item Ty)) : Shape → Value → Prop
  | null (s : Shape) : Conforms cat items s .null
  | scalar {s : Shape} {kind : ScalarKind} {v : Value} : s.head cat = .scalar kind → kind.Takes v →
      Conforms cat items s v
  | list {s inner : Shape} {vs : List Value} : s.head cat = .list inner →
      (∀ v ∈ vs, Conforms cat items inner v) → Conforms cat items s (.list vs)
  | object {s : Shape} {name : String} {i : Item Ty} {fields : List (String × Shape)}
      {entries : List (String × Value)} : s.head cat = .object (some name) fields →
      Entries.find? name items = some i →
      (∀ f ∈ fields, ∀ v, Entries.find? f.1 entries = some v → Conforms cat items f.2 v) →
      (∀ n, n ∈ entries.map Prod.fst ∧ n ∉ fields.map Prod.fst ↔
        n ∈ i.namesMarked "skip_deserializing") →
      (∀ n, n ∈ fields.map Prod.fst ∧ n ∉ entries.map Prod.fst ↔
        n ∈ i.namesMarked "skip_serializing") →
      Conforms cat items s (.object entries)

variable {cat : Catalogue} {items : List (String × Item Ty)}

/-- only what a shape is counts -/
theorem Value.Conforms.of_head {s s' : Shape} {v : Value} (h : v.Conforms cat items s)
    (hs : s.head cat = s'.head cat) : v.Conforms cat items s' := by
  cases h with
  | null => exact .null s'
  | scalar hk hv => exact .scalar (hs ▸ hk) hv
  | list hl hall => exact .list (hs ▸ hl) hall
  | object ho hi hfields hmore hless => exact .object (hs ▸ ho) hi hfields hmore hless

/-! ### the fields of a described record -/

namespace Item

variable {i : Item Ty} {r : RecordDecl}

/-- **The names of the fields of a described record** that are chosen by whether they are asked for
and whether they are sent. -/
theorem names_of_declare (h : i.declare = .ok r) (chosen : Bool → Bool → Bool) :
    (i.fields.filter fun f => chosen f.isRead f.isSent).map (·.givenName i.rule?) =
      (r.fields.filter fun g => chosen g.inShape g.inValue).map (·.name) := by
  obtain ⟨own, fields, hattr, hfields⟩ := declare_ok h
  obtain ⟨-, hitems, hattrs⟩ := attributes_ok hattr
  rw [← hitems, hfields, List.filter_map, List.filter_map, List.map_map, List.map_map]
  have hchosen : fields.filter ((fun f => chosen f.isRead f.isSent) ∘ Prod.fst) =
      fields.filter ((fun g => chosen g.inShape g.inValue) ∘ i.declaredField) := by
    refine List.filter_congr fun p hp => ?_
    show chosen p.1.isRead p.1.isSent = chosen p.2.inShape p.2.inValue
    rw [FieldItem.inShape_eq (hattrs p hp), FieldItem.inValue_eq (hattrs p hp)]
  rw [hchosen]
  refine List.map_congr_left fun p hp => ?_
  exact (FieldItem.graphqlName_eq (hattrs p (List.mem_of_mem_filter hp))).symm

theorem namesMarked_read (h : i.declare = .ok r) : i.namesMarked "skip_deserializing" =
    (r.fields.filter fun g => g.inValue && !g.inShape).map (·.name) := by
  rw [← names_of_declare h fun read sent => sent && !read, namesMarked]
  refine congrArg _ (List.filter_congr fun f _ => ?_)
  simp only [f.marks_eq_read_iff, Bool.decide_and, Bool.decide_eq_true, Bool.decide_eq_false]

theorem namesMarked_send (h : i.declare = .ok r) : i.namesMarked "skip_serializing" =
    (r.fields.filter fun g => g.inShape && !g.inValue).map (·.name) := by
  rw [← names_of_declare h fun read sent => read && !sent, namesMarked]
  refine congrArg _ (List.filter_congr fun f _ => ?_)
  simp only [f.marks_eq_send_iff, Bool.decide_and, Bool.decide_eq_true, Bool.decide_eq_false]

end Item

namespace RecordDecl

variable {r : RecordDecl} {f g : FieldDecl}

/-- **No two fields that are asked for or sent have the same name.** -/
def Distinct (r : RecordDecl) : Prop :=
  ((r.fields.filter fun f => f.inShape || f.inValue).map (·.name)).Nodup

theorem distinct_of_declare {i : Item Ty} (h : i.declare = .ok r) (hd : i.Distinct) :
    r.Distinct := by
  unfold Item.Distinct at hd
  rwa [Item.names_of_declare h fun read sent => read || sent] at hd

theorem Distinct.eq (hd : r.Distinct) (hf : f ∈ r.fields) (hg : g ∈ r.fields)
    (hfu : f.inShape = true ∨ f.inValue = true) (hgu : g.inShape = true ∨ g.inValue = true)
    (hname : f.name = g.name) : f = g := by
  refine List.inj_on_of_nodup_map hd (List.mem_filter.mpr ⟨hf, ?_⟩)
    (List.mem_filter.mpr ⟨hg, ?_⟩) hname
  · simpa using hfu
  · simpa using hgu

end RecordDecl

/-! ### the value of a record -/

namespace RecordDecl

variable {r : RecordDecl} {ds : List Datum} {n : String}

/-- the entries of the value of a record with the given data -/
def sentEntries (r : RecordDecl) (ds : List Datum) : List (String × Value) :=
  ((r.fields.zip ds).filter (·.1.inValue)).map fun p => (p.1.name, p.2.lower)

theorem lowerFields_eq (ps : List (FieldDecl × Datum)) :
    Datum.lowerFields (ps.map fun p => (p.1.name, p.1.inValue, p.2)) =
      (ps.filter (·.1.inValue)).map fun p => (p.1.name, p.2.lower) := by
  induction ps with
  | nil => rfl
  | cons p rest ih =>
    rw [List.map_cons, Datum.lowerFields, ih, List.filter_cons]
    by_cases hsent : p.1.inValue = true
    · rw [if_pos hsent, if_pos hsent, List.map_cons]
    · rw [if_neg hsent, if_neg hsent]

theorem lower_record : (Datum.record ((r.fields.zip ds).map fun p =>
    (p.1.name, p.1.inValue, p.2))).lower = .object (Entries.ofList (r.sentEntries ds)) := by
  rw [Datum.lower, lowerFields_eq]
  rfl

theorem sentEntries_names (hlen : ds.length = r.fields.length) :
    (r.sentEntries ds).map Prod.fst = (r.fields.filter (·.inValue)).map (·.name) := by
  have hfst : (r.fields.zip ds).map Prod.fst = r.fields := List.map_fst_zip hlen.ge
  have hfilter : (r.fields.filter (·.inValue)) =
      ((r.fields.zip ds).filter (·.1.inValue)).map Prod.fst := by
    conv_lhs => rw [← hfst]
    rw [List.filter_map]
    rfl
  rw [hfilter, sentEntries, List.map_map, List.map_map]
  rfl

theorem Distinct.sentEntries (hd : r.Distinct) (hlen : ds.length = r.fields.length) :
    ((r.sentEntries ds).map Prod.fst).Nodup := by
  rw [sentEntries_names hlen]
  refine hd.sublist (List.Sublist.map _ (List.monotone_filter_right _ fun f hf => ?_))
  show (f.inShape || f.inValue) = true
  rw [hf, Bool.or_true]

/-- **The names in the value of a record** are those of the fields that are sent. -/
theorem mem_sent_iff (hd : r.Distinct) (hlen : ds.length = r.fields.length) :
    n ∈ (Entries.ofList (r.sentEntries ds)).map Prod.fst ↔
      ∃ f ∈ r.fields, f.inValue = true ∧ f.name = n := by
  have hnames : n ∈ (Entries.ofList (r.sentEntries ds)).map Prod.fst ↔
      n ∈ (r.sentEntries ds).map Prod.fst := by
    simp only [List.mem_map, Entries.mem_ofList_iff (hd.sentEntries hlen)]
  rw [hnames, sentEntries_names hlen]
  simp only [List.mem_map, List.mem_filter, and_assoc]

/-- **An entry of the value of a record** has the data of the field with its name. -/
theorem find?_sent (hd : r.Distinct) (hlen : ds.length = r.fields.length) {v : Value}
    (h : Entries.find? n (Entries.ofList (r.sentEntries ds)) = some v) :
    ∃ p ∈ r.fields.zip ds, p.1.inValue = true ∧ p.1.name = n ∧ v = p.2.lower := by
  have hmem := (Entries.mem_ofList_iff (hd.sentEntries hlen)).mp (Entries.mem_of_find? h)
  obtain ⟨p, hp, heq⟩ := List.mem_map.mp hmem
  obtain ⟨hzip, hsent⟩ := List.mem_filter.mp hp
  cases heq
  exact ⟨p, hzip, hsent, rfl, rfl⟩

/-- **The names in the shape of a record** are those of the fields that are asked for. -/
theorem mem_asked_iff : n ∈ (r.shape.map fun f => (f.1, Shape.deferred f.2)).map Prod.fst ↔
    ∃ f ∈ r.fields, f.inShape = true ∧ f.name = n := by
  constructor
  · intro h
    obtain ⟨⟨key, s⟩, hmem, rfl⟩ := List.mem_map.mp h
    obtain ⟨f, hf, hname, -⟩ := mem_shape.mp hmem
    obtain ⟨hfields, hshape⟩ := mem_readFields.mp hf
    exact ⟨f, hfields, hshape, hname⟩
  · rintro ⟨f, hf, hshape, hname⟩
    exact List.mem_map.mpr ⟨(n, .deferred f.type),
      mem_shape.mpr ⟨f, mem_readFields.mpr ⟨hf, hshape⟩, hname, rfl⟩, rfl⟩

/-- **The names on one side only** are those of the fields that are on that side only. -/
theorem Distinct.mem_difference_iff (hd : r.Distinct) {this that : FieldDecl → Bool}
    (hthis : ∀ f, this f = true → f.inShape = true ∨ f.inValue = true)
    (hthat : ∀ f, that f = true → f.inShape = true ∨ f.inValue = true) :
    ((∃ f ∈ r.fields, this f = true ∧ f.name = n) ∧ ¬ ∃ f ∈ r.fields, that f = true ∧ f.name = n) ↔
      n ∈ (r.fields.filter fun f => this f && !that f).map (·.name) := by
  simp only [List.mem_map, List.mem_filter, Bool.and_eq_true, Bool.not_eq_true']
  constructor
  · rintro ⟨⟨f, hf, hon, hname⟩, hnone⟩
    refine ⟨f, ⟨hf, hon, ?_⟩, hname⟩
    exact Bool.eq_false_iff.mpr fun hoff => hnone ⟨f, hf, hoff, hname⟩
  · rintro ⟨f, ⟨hf, hon, hoff⟩, hname⟩
    refine ⟨⟨f, hf, hon, hname⟩, ?_⟩
    rintro ⟨g, hg, hthatg, hgname⟩
    have hfg : f = g := hd.eq hf hg (hthis f hon) (hthat g hthatg) (hname.trans hgname.symm)
    rw [← hfg, hoff] at hthatg
    cases hthatg

end RecordDecl

/-! ### the value of data -/

/-- **Data of a type is sent as a value of its shape,** whatever the records of the family, which may
contain themselves: null for what is absent, a scalar of the type's kind, a list of values of the
items' shape, and for a record an object with the fields that are sent, of which only those that are
marked not to be read are not asked for, and only those that are marked not to be sent are missing. -/
theorem Datum.lower_conforms {t : Ty} {d : Datum} (described : cat.DescribedBy items)
    (h : cat.Has t d) : d.lower.Conforms cat items (t.shape cat) := by
  induction h with
  | int | single | double | bool | char | text | json => exact .scalar rfl trivial
  | absent inner => exact .null _
  | present _ ih => exact ih
  | boxed _ ih => exact ih
  | @list inner ds _ ih =>
    rw [Datum.lower, Catalogue.lowerItems_eq_map]
    refine .list rfl (List.forall_mem_map.mpr fun d hd => ?_)
    exact (ih d hd).of_head (Ty.head_shape cat inner)
  | @record name r ds hr hlen hall ih =>
    obtain ⟨i, hi, hdeclare, hdistinct⟩ := described.declares name r hr
    have hd : r.Distinct := RecordDecl.distinct_of_declare hdeclare hdistinct
    have hhead : ((Ty.declared name).shape cat).head cat =
        .object (some name) (r.shape.map fun f => (f.1, .deferred f.2)) := by
      rw [Ty.head_shape, Ty.head_of_record rfl hr]
    rw [RecordDecl.lower_record]
    refine .object hhead hi ?_ (fun n => ?_) fun n => ?_
    · rintro ⟨n, s⟩ hs v hv
      obtain ⟨f, hf, hfname, rfl⟩ := RecordDecl.mem_shape.mp hs
      obtain ⟨p, hp, hsent, hpname, rfl⟩ := RecordDecl.find?_sent hd hlen hv
      obtain ⟨hfmem, hfshape⟩ := RecordDecl.mem_readFields.mp hf
      have hpf : p.1 = f := hd.eq (List.of_mem_zip hp).1 hfmem (.inr hsent) (.inl hfshape)
        (hpname.trans hfname.symm)
      rw [← hpf]
      exact (ih p hp).of_head (Ty.head_shape cat p.1.type)
    · rw [RecordDecl.mem_sent_iff hd hlen, RecordDecl.mem_asked_iff, Item.namesMarked_read hdeclare]
      exact hd.mem_difference_iff (fun f => .inr) fun f => .inl
    · rw [RecordDecl.mem_sent_iff hd hlen, RecordDecl.mem_asked_iff, Item.namesMarked_send hdeclare]
      exact hd.mem_difference_iff (fun f => .inl) fun f => .inr

/-! ### an example -/

def serdeMark (name : String) : AttrGroup := ⟨"serde", [⟨name, .none⟩]⟩

/-- a record that contains itself, with a field for each way to be in its shape and its value -/
def nodeItem : Item Ty where
  kind := .named
  name := "Node"
  params := []
  attrs := [⟨"serde", [⟨"rename_all", .value (.text "camelCase")⟩]⟩]
  fields := [⟨"node_id", .int .i64, [serdeMark "skip_deserializing"]⟩,
    ⟨"label", .option .text, [⟨"serde", [⟨"rename", .value (.text "title")⟩]⟩]⟩,
    ⟨"unit_weight", .single, [serdeMark "skip_serializing"]⟩,
    ⟨"cache", .json, [serdeMark "skip"]⟩,
    ⟨"children", .list (.boxed (.declared "Node")), []⟩]

def nodeRecord : RecordDecl :=
  ⟨"Node", [⟨"nodeId", "nodeId", .int .i64, false, true, some (.int 0)⟩,
    ⟨"title", "title", .option .text, true, true, none⟩,
    ⟨"unitWeight", "unitWeight", .single, true, false, none⟩,
    ⟨"cache", "cache", .json, false, false, some (.json .null)⟩,
    ⟨"children", "children", .list (.boxed (.declared "Node")), true, true, none⟩]⟩

def nodes : Catalogue := [("Node", .record nodeRecord)]

/-- a node with the given number, title and children -/
def nodeDatum (n : Int) (title : Datum) (children : List Datum) : Datum :=
  .record [("nodeId", true, .int n), ("title", true, title),
    ("unitWeight", false, .single ⟨false, 0x3F800000⟩), ("cache", false, .json (.int 1)),
    ("children", true, .list children)]

theorem nodes_described : nodes.DescribedBy [("Node", nodeItem)] where
  declares name r h := by
    have hmem := Entries.mem_of_find? h
    simp only [nodes, List.mem_singleton, Prod.mk.injEq, Declaration.record.injEq] at hmem
    obtain ⟨rfl, rfl⟩ := hmem
    exact ⟨nodeItem, rfl, rfl, by decide⟩

theorem nodes_has {n : Int} {title : Datum} {children : List Datum}
    (hn : IntKind.i64.holds n = true) (htitle : nodes.Has (.option .text) title)
    (hchildren : ∀ d ∈ children, nodes.Has (.declared "Node") d) :
    nodes.Has (.declared "Node") (nodeDatum n title children) := by
  have hlist : nodes.Has (.list (.boxed (.declared "Node"))) (.list children) :=
    .list fun d hd => .boxed (hchildren d hd)
  refine @Catalogue.Has.record nodes "Node" nodeRecord [.int n, title,
    .single ⟨false, 0x3F800000⟩, .json (.int 1), .list children] rfl rfl ?_
  simp only [nodeRecord, List.zip_cons_cons, List.zip_nil_left, List.forall_mem_cons]
  exact ⟨.int hn, htitle, .single _, .json _, hlist, nofun⟩

/-- A node with a child: the number is sent and not asked for, the weight asked for and not sent. -/
theorem nodeDatum_lower_conforms :
    let d := nodeDatum 1 (.text "a") [nodeDatum 2 .absent []]
    nodes.DescribedBy [("Node", nodeItem)] ∧ nodes.Has (.declared "Node") d ∧
    nodeItem.namesMarked "skip_deserializing" = ["nodeId"] ∧
    nodeItem.namesMarked "skip_serializing" = ["unitWeight"] ∧
    d.lower = .object [("children", .list [.object [("children", .list []), ("nodeId", .int 2),
      ("title", .null)]]), ("nodeId", .int 1), ("title", .str "a")] ∧
    d.lower.Conforms nodes [("Node", nodeItem)] ((Ty.declared "Node").shape nodes) := by
  intro d
  have hchild : nodes.Has (.declared "Node") (nodeDatum 2 .absent []) :=
    nodes_has (by decide) (.absent _) nofun
  have hnode : nodes.Has (.declared "Node") d :=
    nodes_has (by decide) (.present (.text "a")) (List.forall_mem_singleton.mpr hchild)
  exact ⟨nodes_described, hnode, by decide, by decide, by rfl,
    Datum.lower_conforms nodes_described hnode⟩

end GraphQLCall
