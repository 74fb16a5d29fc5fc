import GraphQLCall.Proofs.Outcome
import GraphQLCall.Proofs.Record.Words
import GraphQLCall.Record.Derive

/-!
# Records: names and keys

What the attributes of an item and of its fields say, read off the attributes as they are written;
and from it the keys that a decoder reads the fields under, beside the names that they are asked for
under.

* `serdeAttrs`, `readTexts`   the attributes that count, and the texts they give for reading
* `Attributes.Says`   what attributes make of what is known; `Attributes.says_ofGroups`
* `FieldItem.isRead`, `FieldItem.serdeKey`   whether a field is read, and under which key
* `FieldItem.isSent`, `FieldItem.givenName`   whether a field is sent, and under which name
* `Item.rule?`, `Item.readFields`, `Item.sentFields`   the rule of an item, its fields that are read,
  and those that are sent
* `FieldItem.KeepsName`   the fields whose name is their key
* `Item.shape_names_iff`   just those
-/

namespace GraphQLCall

def serdeAttrs (groups : List AttrGroup) : List Attr :=
  (groups.filter (·.name = "serde")).flatMap (·.attrs)

/-- an entry of a list of names, if it is the one for reading -/
def readText? : String × AttrLiteral → Option String
  | (form, .text s) => if form = "deserialize" then some s else none
  | (_, .other) => none

/-- the texts that an argument gives for reading, in order -/
def AttrArgument.readTexts : AttrArgument → List String
  | .value (.text s) => [s]
  | .list entries => entries.filterMap readText?
  | _ => []

/-- **The texts that attributes with a name give for reading,** in order. -/
def readTexts (name : String) (attrs : List Attr) : List String :=
  (attrs.filter (·.name = name)).flatMap (·.argument.readTexts)

theorem readTexts_append (name : String) (attrs more : List Attr) :
    readTexts name (attrs ++ more) = readTexts name attrs ++ readTexts name more := by
  simp [readTexts]

theorem readTexts_singleton (name : String) (attr : Attr) :
    readTexts name [attr] = if attr.name = name then attr.argument.readTexts else [] := by
  by_cases h : attr.name = name <;> simp [readTexts, h]

theorem serdeAttrs_cons (g : AttrGroup) (groups : List AttrGroup) :
    serdeAttrs (g :: groups) = (if g.name = "serde" then g.attrs else []) ++ serdeAttrs groups := by
  by_cases h : g.name = "serde" <;> simp [serdeAttrs, h]

/-! ### what attributes say -/

namespace Attributes

/-- **What attributes make of what is known.**  Of several texts the last one holds. -/
structure Says (a : Attributes) (attrs : List Attr) (a' : Attributes) : Prop where
  rename : a'.rename = (readTexts "rename" attrs).getLast?.elim a.rename some
  renameAll : a'.renameAll = (readTexts "rename_all" attrs).getLast?.elim a.renameAll RenameRule.ofText?
  skip : a'.skip = (a.skip || attrs.any (·.name = "skip"))
  skipRead : a'.skipRead = (a.skipRead || attrs.any (·.name = "skip_deserializing"))
  skipSend : a'.skipSend = (a.skipSend || attrs.any (·.name = "skip_serializing"))
  hasDefault : a'.hasDefault = (a.hasDefault || attrs.any (·.name = "default"))

theorem getLast?_elim_append {α β : Type} (l l' : List α) (d : β) (f : α → β) :
    (l ++ l').getLast?.elim d f = l'.getLast?.elim (l.getLast?.elim d f) f := by
  rw [List.getLast?_append]
  cases l'.getLast? <;> rfl

theorem Says.refl (a : Attributes) : a.Says [] a := by
  constructor <;> simp [readTexts]

theorem Says.trans {a b c : Attributes} {attrs more : List Attr} (h : a.Says attrs b)
    (h' : b.Says more c) : a.Says (attrs ++ more) c where
  rename := by rw [h'.rename, h.rename, readTexts_append, getLast?_elim_append]
  renameAll := by rw [h'.renameAll, h.renameAll, readTexts_append, getLast?_elim_append]
  skip := by rw [h'.skip, h.skip, List.any_append, Bool.or_assoc]
  skipRead := by rw [h'.skipRead, h.skipRead, List.any_append, Bool.or_assoc]
  skipSend := by rw [h'.skipSend, h.skipSend, List.any_append, Bool.or_assoc]
  hasDefault := by rw [h'.hasDefault, h.hasDefault, List.any_append, Bool.or_assoc]

theorem readName_ok {found r : Option String} {entries : List (String × AttrLiteral)}
    (h : readName found entries = .ok r) :
    r = (entries.filterMap readText?).getLast?.elim found some := by
  induction entries generalizing found with
  | nil =>
    cases h
    rfl
  | cons entry rest ih =>
    obtain ⟨form, literal⟩ := entry
    cases literal with
    | other => cases h
    | text s =>
      rw [readName] at h
      by_cases hread : form = "deserialize"
      · rw [if_pos hread] at h
        have hentry : readText? (form, .text s) = some s := if_pos hread
        rw [ih h, List.filterMap_cons_some hentry, ← List.singleton_append, getLast?_elim_append]
        rfl
      · rw [if_neg hread] at h
        have hentry : readText? (form, .text s) = none := if_neg hread
        rw [List.filterMap_cons_none hentry]
        split at h
        · exact ih h
        · cases h

theorem nameGiven_ok {argument : AttrArgument} {atEnd : Bool} {r : Option String}
    (h : nameGiven argument atEnd = .ok r) : r = argument.readTexts.getLast? := by
  unfold nameGiven at h
  split at h
  · cases h
    rfl
  · cases h
  · cases h
  · rw [readName_ok h, AttrArgument.readTexts]
    cases (List.filterMap readText? _).getLast? <;> rfl
  · cases h

theorem flag_ok {a a' : Attributes} {argument : AttrArgument} (h : flag a argument = .ok a') :
    a' = a := by
  cases argument <;> cases h
  rfl

/-- **One more attribute.** -/
theorem says_add {a a' : Attributes} {attr : Attr} {atEnd : Bool}
    (h : add a attr atEnd = .ok a') : a.Says [attr] a' := by
  obtain ⟨name, argument⟩ := attr
  unfold add at h
  dsimp only at h
  -- one case for each name that counts, in the order in which they are looked at
  by_cases hrename : name = "rename"
  · rw [if_pos hrename] at h
    split at h
    · cases h
    all_goals
      rename_i hgiven
      cases h
      constructor <;> simp [readTexts_singleton, hrename, ← nameGiven_ok hgiven]
  rw [if_neg hrename] at h
  by_cases hall : name = "rename_all"
  · rw [if_pos hall] at h
    split at h
    · cases h
    · rename_i hgiven
      cases h
      constructor <;> simp [readTexts_singleton, hall, ← nameGiven_ok hgiven]
    · rename_i hgiven
      split at h
      · rename_i hrule
        cases h
        constructor <;> simp [readTexts_singleton, hall, ← nameGiven_ok hgiven, hrule]
      · cases h
  rw [if_neg hall] at h
  by_cases hskip : name = "skip"
  · rw [if_pos hskip] at h
    rw [flag_ok h]
    constructor <;> simp [readTexts_singleton, hskip]
  rw [if_neg hskip] at h
  by_cases hread : name = "skip_deserializing"
  · rw [if_pos hread] at h
    rw [flag_ok h]
    constructor <;> simp [readTexts_singleton, hread]
  rw [if_neg hread] at h
  by_cases hsend : name = "skip_serializing"
  · rw [if_pos hsend] at h
    rw [flag_ok h]
    constructor <;> simp [readTexts_singleton, hsend]
  rw [if_neg hsend] at h
  by_cases hdefault : name = "default"
  · rw [if_pos hdefault] at h
    split at h
    all_goals
      cases h
      constructor <;> simp [readTexts_singleton, hdefault]
  · rw [if_neg hdefault] at h
    split at h
    all_goals
      cases h
      constructor <;>
        simp [readTexts_singleton, hrename, hall, hskip, hread, hsend, hdefault]

theorem says_addAll {a a' : Attributes} {attrs : List Attr} (h : addAll a attrs = .ok a') :
    a.Says attrs a' := by
  induction attrs generalizing a with
  | nil =>
    rw [addAll] at h
    split at h
    · cases h
    · cases h
      exact .refl _
  | cons attr rest ih =>
    rw [addAll] at h
    split at h
    · cases h
    · rename_i hadd
      exact (says_add hadd).trans (ih h)

theorem says_addGroups {a a' : Attributes} {groups : List AttrGroup}
    (h : addGroups a groups = .ok a') : a.Says (serdeAttrs groups) a' := by
  induction groups generalizing a with
  | nil =>
    cases h
    exact .refl _
  | cons g rest ih =>
    rw [addGroups] at h
    rw [serdeAttrs_cons]
    by_cases hg : g.name = "serde"
    · rw [if_pos hg] at h ⊢
      split at h
      · cases h
      · rename_i hall
        exact (says_addAll hall).trans (ih h)
    · rw [if_neg hg] at h ⊢
      exact ih h

/-- **The attributes that groups say.** -/
theorem says_ofGroups {a : Attributes} {groups : List AttrGroup} (h : ofGroups groups = .ok a) :
    empty.Says (serdeAttrs groups) a := says_addGroups h

end Attributes

/-! ### names and keys -/

variable {τ : Type}

/-- the text that a field is renamed to -/
def FieldItem.rename? (f : FieldItem τ) : Option String :=
  (readTexts "rename" (serdeAttrs f.attrs)).getLast?

/-- the marks that can take a field out of the shape, out of the value, or out of both -/
def skipMarks : List String := ["skip", "skip_deserializing", "skip_serializing"]

/-- **Whether a field is read.** -/
def FieldItem.isRead (f : FieldItem τ) : Bool :=
  !(serdeAttrs f.attrs).any (·.name = "skip") &&
    !(serdeAttrs f.attrs).any (·.name = "skip_deserializing")

/-- **Whether a field is sent.** -/
def FieldItem.isSent (f : FieldItem τ) : Bool :=
  !(serdeAttrs f.attrs).any (·.name = "skip") &&
    !(serdeAttrs f.attrs).any (·.name = "skip_serializing")

/-- **The key that a decoder reads a field under:** what the field is renamed to, or the form of its
identifier under the rule of its item. -/
def FieldItem.serdeKey (f : FieldItem τ) (rule : Option RenameRule) : String :=
  match f.rename?, rule with
  | some name, _ => name
  | none, some rule => String.ofList (rule.form (plainIdent f.ident).toList)
  | none, none => plainIdent f.ident

/-- **The name that a field is asked for and sent under:** what it is renamed to, or what the rule of
its item makes of its identifier. -/
def FieldItem.givenName (f : FieldItem τ) (rule : Option RenameRule) : String :=
  match f.rename?, rule with
  | some name, _ => name
  | none, some rule => rule.name (plainIdent f.ident)
  | none, none => plainIdent f.ident

/-- **The fields whose name is their key.** -/
def FieldItem.KeepsName (f : FieldItem τ) (rule : Option RenameRule) : Prop :=
  f.rename? = none → ∀ r ∈ rule, r.Keeps (plainIdent f.ident).toList

/-- the rule that an item names for reading -/
def Item.rule? (i : Item τ) : Option RenameRule :=
  (readTexts "rename_all" (serdeAttrs i.attrs)).getLast?.bind RenameRule.ofText?

def Item.readFields (i : Item τ) : List (FieldItem τ) := i.fields.filter (·.isRead)

def Item.sentFields (i : Item τ) : List (FieldItem τ) := i.fields.filter (·.isSent)

namespace FieldItem

variable {f : FieldItem τ} {a : Attributes} {rule : Option RenameRule}

theorem rename_eq (h : Attributes.ofGroups f.attrs = .ok a) : a.rename = f.rename? := by
  rw [(Attributes.says_ofGroups h).rename, rename?]
  cases (readTexts "rename" (serdeAttrs f.attrs)).getLast? <;> rfl

theorem inShape_eq (h : Attributes.ofGroups f.attrs = .ok a) : a.inShape = f.isRead := by
  have hsays := Attributes.says_ofGroups h
  rw [Attributes.inShape, hsays.skip, hsays.skipRead]
  rfl

theorem inValue_eq (h : Attributes.ofGroups f.attrs = .ok a) : a.inValue = f.isSent := by
  have hsays := Attributes.says_ofGroups h
  rw [Attributes.inValue, hsays.skip, hsays.skipSend]
  rfl

theorem graphqlName_eq (h : Attributes.ofGroups f.attrs = .ok a) :
    f.graphqlName rule a = f.givenName rule := by
  have hrename := rename_eq h
  unfold graphqlName givenName
  cases hname : f.rename? <;> cases rule <;> rw [hrename, hname]

theorem readKey_eq (h : Attributes.ofGroups f.attrs = .ok a) :
    f.readKey rule a = f.serdeKey rule := by
  unfold readKey serdeKey
  rw [rename_eq h]
  cases f.rename? with
  | some name => rfl
  | none =>
    cases rule with
    | none => rfl
    | some r => exact r.key_eq _

theorem graphqlName_eq_iff (h : Attributes.ofGroups f.attrs = .ok a) :
    f.graphqlName rule a = f.serdeKey rule ↔ f.KeepsName rule := by
  unfold graphqlName serdeKey KeepsName
  rw [rename_eq h]
  cases f.rename? with
  | some name => simp
  | none =>
    cases rule with
    | none => simp
    | some r => simpa using r.name_eq_key_iff (plainIdent f.ident)

end FieldItem

namespace Item

variable {i : Item τ} {d : Derived τ} {own : Attributes} {fields : List (FieldItem τ × Attributes)}

/-- **The attributes of an item** and of each of its fields, where they are not refused. -/
theorem attributes_ok (h : i.attributes = .ok (own, fields)) :
    own.renameAll = i.rule? ∧ fields.map Prod.fst = i.fields ∧
      ∀ p ∈ fields, Attributes.ofGroups p.1.attrs = .ok p.2 := by
  unfold attributes at h
  split at h
  · cases h
  rename_i own' hown
  split at h
  · split at h
    · cases h
    rename_i fields' heach
    cases h
    have hfield (f : FieldItem τ) (p : FieldItem τ × Attributes)
        (h : (Attributes.ofGroups f.attrs).map (f, ·) = .ok p) :
        Attributes.ofGroups p.1.attrs = .ok p.2 ∧ p.1 = f := by
      cases ha : Attributes.ofGroups f.attrs with
      | error e =>
        rw [ha] at h
        cases h
      | ok a =>
        rw [ha] at h
        cases h
        exact ⟨ha, rfl⟩
    have hall := (List.forall₂_and_left _ _).mp ((Outcome.each_ok heach).imp hfield).flip
    refine ⟨?_, ?_, hall.1⟩
    · rw [(Attributes.says_ofGroups hown).renameAll, rule?]
      cases (readTexts "rename_all" (serdeAttrs i.attrs)).getLast? <;> rfl
    · rw [← List.forall₂_eq_eq_eq, List.forall₂_map_left_iff]
      exact hall.2
  · cases h

theorem readFields_eq (h : i.attributes = .ok (own, fields)) :
    i.readFields = (fields.filter (·.2.inShape)).map Prod.fst := by
  obtain ⟨-, hfields, hattrs⟩ := attributes_ok h
  rw [readFields, ← hfields, List.filter_map]
  refine congrArg _ (List.filter_congr fun p hp => ?_)
  exact (FieldItem.inShape_eq (hattrs p hp)).symm

theorem derive_ok (h : i.derive = .ok d) : ∃ own fields, i.attributes = .ok (own, fields) ∧
    d.shape = (fields.filter (·.2.inShape)).map fun p =>
      (p.1.graphqlName own.renameAll p.2, p.1.type) := by
  unfold derive at h
  cases hattr : i.attributes with
  | error e =>
    rw [hattr] at h
    cases h
  | ok both =>
    rw [hattr] at h
    cases h
    exact ⟨both.1, both.2, rfl, rfl⟩

/-- **The names that the fields of a derived record are asked for under,** beside the keys that they
are read under: the two agree for the fields that keep their names, and for no others. -/
theorem shape_names_iff (h : i.derive = .ok d) :
    List.Forall₂ (fun f entry => entry.2 = f.type ∧
      (entry.1 = f.serdeKey i.rule? ↔ f.KeepsName i.rule?)) i.readFields d.shape ∧
    (d.shape.map Prod.fst = i.readFields.map (·.serdeKey i.rule?) ↔
      ∀ f ∈ i.readFields, f.KeepsName i.rule?) := by
  obtain ⟨own, fields, hattr, hshape⟩ := derive_ok h
  obtain ⟨hrule, -, hattrs⟩ := attributes_ok hattr
  have hname : ∀ p ∈ fields.filter (·.2.inShape),
      p.1.graphqlName i.rule? p.2 = p.1.serdeKey i.rule? ↔ p.1.KeepsName i.rule? :=
    fun p hp => FieldItem.graphqlName_eq_iff (hattrs p (List.mem_of_mem_filter hp))
  rw [readFields_eq hattr, hshape, hrule]
  constructor
  · rw [List.forall₂_map_left_iff, List.forall₂_map_right_iff, List.forall₂_same]
    exact fun p hp => ⟨rfl, hname p hp⟩
  · rw [List.map_map, List.map_map, List.map_inj_left, List.forall_mem_map]
    exact forall₂_congr hname

/-- a record with a field whose identifier begins with a low line, in camel case -/
def lowLineItem : Item String :=
  { kind := .named
    name := "Beer"
    params := []
    attrs := [⟨"serde", [⟨"rename_all", .value (.text "camelCase")⟩]⟩]
    fields := [⟨"brand_name", "String", []⟩, ⟨"_id", "i32", []⟩] }

theorem lowLineItem_shape_names :
    lowLineItem.derive = .ok ⟨"Beer", [("brandName", "String"), ("Id", "i32")],
      [("brandName", "brand_name"), ("Id", "_id")], []⟩ ∧
    lowLineItem.readFields.map (·.serdeKey lowLineItem.rule?) = ["brandName", "id"] ∧
    ¬ ∀ f ∈ lowLineItem.readFields, f.KeepsName lowLineItem.rule? := by
  have hderive : lowLineItem.derive = .ok ⟨"Beer", [("brandName", "String"), ("Id", "i32")],
      [("brandName", "brand_name"), ("Id", "_id")], []⟩ := by rfl
  have hkeys : lowLineItem.readFields.map (·.serdeKey lowLineItem.rule?)
      = ["brandName", "id"] := by decide
  refine ⟨hderive, hkeys, ?_⟩
  rw [← (shape_names_iff hderive).2, hkeys]
  decide

end Item

end GraphQLCall
