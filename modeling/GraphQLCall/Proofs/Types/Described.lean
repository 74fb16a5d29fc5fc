import GraphQLCall.Proofs.Record.Names
import GraphQLCall.Proofs.Types.Family

/-!
# Types: families of described records

A record that a description declares is one of a family if its fields keep their names and no two of
them have the same.

* `RecordDecl.Whole`   the records whose fields are all asked for, read and sent
* `Item.declare_ok`   what a description declares
* `Item.agrees_of_declare`   a described record whose fields are asked for and read under the same
                               names
* `Item.whole_of_declare`   a described record none of whose fields is left out
* `breweries`   a family of two records that contain each other
-/

namespace GraphQLCall

/-- **A record whose fields are all asked for, read and sent,** and have no fallback. -/
def RecordDecl.Whole (r : RecordDecl) : Prop :=
  ∀ f ∈ r.fields, f.inShape = true ∧ f.inValue = true ∧ f.fallback = none

instance (f : FieldItem Ty) (rule : Option RenameRule) : Decidable (f.KeepsName rule) :=
  have (r : RenameRule) : Decidable (r.Keeps (plainIdent f.ident).toList) :=
    decidable_of_iff _ (r.name_eq_key_iff (plainIdent f.ident))
  inferInstanceAs (Decidable (_ → _))

namespace Item

variable {i : Item Ty} {r : RecordDecl}

/-- the field that a described field declares -/
def declaredField (i : Item Ty) (p : FieldItem Ty × Attributes) : FieldDecl where
  name := p.1.graphqlName i.rule? p.2
  key := p.1.readKey i.rule? p.2
  type := p.1.type
  inShape := p.2.inShape
  inValue := p.2.inValue
  fallback := if p.2.hasDefault || !p.2.inShape then p.1.type.default? else none

theorem declare_ok (h : i.declare = .ok r) : ∃ own fields, i.attributes = .ok (own, fields) ∧
    r.fields = fields.map i.declaredField := by
  obtain ⟨⟨own, fields⟩, hattr, rfl⟩ := Outcome.map_eq_ok_iff.mp h
  refine ⟨own, fields, hattr, ?_⟩
  simp only [(attributes_ok hattr).1]
  rfl

/-- **A described record whose fields keep their names,** no two of them having the same. -/
theorem agrees_of_declare (h : i.declare = .ok r)
    (keeps : ∀ f ∈ i.readFields, f.KeepsName i.rule?)
    (distinct : (i.readFields.map (·.serdeKey i.rule?)).Nodup) : r.Agrees := by
  obtain ⟨own, fields, hattr, hfields⟩ := declare_ok h
  obtain ⟨-, -, hattrs⟩ := attributes_ok hattr
  have hread : r.readFields = (fields.filter (·.2.inShape)).map i.declaredField := by
    rw [RecordDecl.readFields, hfields, List.filter_map]
    rfl
  have hname : ∀ p ∈ fields.filter (·.2.inShape),
      p.1.graphqlName i.rule? p.2 = p.1.serdeKey i.rule? := fun p hp =>
    (FieldItem.graphqlName_eq_iff (hattrs p (List.mem_of_mem_filter hp))).mpr
      (keeps p.1 (readFields_eq hattr ▸ List.mem_map_of_mem hp))
  constructor
  · rw [hread, List.forall_mem_map]
    exact fun p hp => (FieldItem.readKey_eq (hattrs p (List.mem_of_mem_filter hp))).trans
      (hname p hp).symm
  · rw [readFields_eq hattr, List.map_map] at distinct
    rw [hread, List.map_map]
    exact List.map_congr_left hname ▸ distinct

/-- **A described record none of whose fields is left out** or has a default. -/
theorem whole_of_declare (h : i.declare = .ok r)
    (plain : ∀ f ∈ i.fields, ∀ a ∈ serdeAttrs f.attrs,
      a.name ≠ "skip" ∧ a.name ≠ "skip_deserializing" ∧ a.name ≠ "skip_serializing" ∧
        a.name ≠ "default") : r.Whole := by
  obtain ⟨own, fields, hattr, hfields⟩ := declare_ok h
  obtain ⟨-, hitems, hattrs⟩ := attributes_ok hattr
  rw [RecordDecl.Whole, hfields, List.forall_mem_map]
  intro p hp
  have hsays := Attributes.says_ofGroups (hattrs p hp)
  have hplain := plain p.1 (hitems ▸ List.mem_map_of_mem hp)
  have hno (name : String) (h : ∀ a ∈ serdeAttrs p.1.attrs, a.name ≠ name) :
      (serdeAttrs p.1.attrs).any (·.name = name) = false := by
    simpa using h
  have hskip := hsays.skip.trans (hno _ fun a ha => (hplain a ha).1)
  have hread := hsays.skipRead.trans (hno _ fun a ha => (hplain a ha).2.1)
  have hsend := hsays.skipSend.trans (hno _ fun a ha => (hplain a ha).2.2.1)
  have hdefault := hsays.hasDefault.trans (hno _ fun a ha => (hplain a ha).2.2.2)
  simp [declaredField, Attributes.inShape, Attributes.inValue, hskip, hread, hsend, hdefault]

end Item

/-! ### an example -/

def beerItem : Item Ty where
  kind := .named
  name := "Beer"
  params := []
  attrs := [⟨"serde", [⟨"rename_all", .value (.text "camelCase")⟩]⟩]
  fields := [⟨"brand_name", .text, []⟩, ⟨"abv", .option .double, []⟩,
    ⟨"brewed_by", .option (.boxed (.declared "Brewery")), []⟩]

def breweryItem : Item Ty where
  kind := .named
  name := "Brewery"
  params := []
  attrs := []
  fields := [⟨"rank", .int .u8, []⟩, ⟨"r#type", .char, []⟩,
    ⟨"beers", .list (.declared "Beer"), []⟩]

/-- a record with fields that are all asked for, read under their names, and sent -/
def plainRecord (ident : String) (fields : List (String × Ty)) : RecordDecl :=
  ⟨ident, fields.map fun f => ⟨f.1, f.1, f.2, true, true, none⟩⟩

def beerRecord : RecordDecl :=
  plainRecord "Beer" [("brandName", .text), ("abv", .option .double),
    ("brewedBy", .option (.boxed (.declared "Brewery")))]

def breweryRecord : RecordDecl :=
  plainRecord "Brewery" [("rank", .int .u8), ("type", .char), ("beers", .list (.declared "Beer"))]

/-- **A family of two records that contain each other.** -/
def breweries : Catalogue := [("Beer", .record beerRecord), ("Brewery", .record breweryRecord)]

/-- the fields of a beer, in order -/
theorem fields?_beer : breweries.fields? "Beer" = some [("abv", .deferred (.option .double)),
    ("brandName", .deferred .text),
    ("brewedBy", .deferred (.option (.boxed (.declared "Brewery"))))] := by
  have hshape : beerRecord.shape = [("abv", .option .double), ("brandName", .text),
      ("brewedBy", .option (.boxed (.declared "Brewery")))] :=
    Entries.Strict.sort_eq_of_perm (by decide) (by decide)
  show some (beerRecord.shape.map fun f => (f.1, Shape.deferred f.2)) = _
  rw [hshape]
  rfl

/-- the fields of a brewery, in order -/
theorem fields?_brewery : breweries.fields? "Brewery" = some
    [("beers", .deferred (.list (.declared "Beer"))), ("rank", .deferred (.int .u8)),
      ("type", .deferred .char)] := by
  have hshape : breweryRecord.shape =
      [("beers", .list (.declared "Beer")), ("rank", .int .u8), ("type", .char)] :=
    Entries.Strict.sort_eq_of_perm (by decide) (by decide)
  show some (breweryRecord.shape.map fun f => (f.1, Shape.deferred f.2)) = _
  rw [hshape]
  rfl

theorem declare_of_breweries {name : String} {r : RecordDecl}
    (h : breweries.find? name = some (.record r)) :
    beerItem.declare = .ok r ∨ breweryItem.declare = .ok r := by
  have hmem := Entries.mem_of_find? h
  simp only [breweries, List.mem_cons, Prod.mk.injEq, Declaration.record.injEq, List.not_mem_nil,
    or_false] at hmem
  rcases hmem with ⟨-, rfl⟩ | ⟨-, rfl⟩
  · exact .inl rfl
  · exact .inr rfl

theorem breweries_closed : breweries.Closed where
  agrees name r h := by
    rcases declare_of_breweries h with hr | hr
    · exact Item.agrees_of_declare hr (by decide) (by decide)
    · exact Item.agrees_of_declare hr (by decide) (by decide)
  known name r h := by
    rcases declare_of_breweries h with hr | hr <;> cases hr <;>
      simp [RecordDecl.readFields, Ty.Known, breweries, Catalogue.find?, Entries.find?]

theorem breweries_whole {name : String} {r : RecordDecl}
    (h : breweries.find? name = some (.record r)) : r.Whole := by
  rcases declare_of_breweries h with hr | hr
  · exact Item.whole_of_declare hr (by decide)
  · exact Item.whole_of_declare hr (by decide)

end GraphQLCall
