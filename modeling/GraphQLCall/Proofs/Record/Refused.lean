import GraphQLCall.Proofs.Record.Flaws

/-!
# Records: the fields of a derived record

The groups of attributes of an item and of its fields are looked at one by one, and a group is refused
for the first of its attributes that is, or at its end for tokens that are left unread.  A record is
derived just if none of its groups is refused, and then of what its attributes say.

* `AttrGroup.Refused`, `AttrGroup.not_refused_iff`   why a group of attributes is refused
* `Attributes.addAll_eq_error_iff`, `Attributes.ofGroups_map_unit`   groups are looked at one by one
* `Item.allGroups`, `Item.attributes_map_unit`   the groups of an item and of its fields
* `Item.derived`   the record that an item becomes
* `Item.derive_outcome`   that record, or the first of the groups that is refused
-/

namespace GraphQLCall

/-! ### groups -/

/-- **Why a group of attributes is refused:** the flaw of the first attribute that is not of the right
form, or else what is left unread. -/
inductive AttrGroup.Refused (g : AttrGroup) : AttrError → Prop
  | flaw {before after : List Attr} {attr : Attr} {e : AttrError} :
      g.attrs = before ++ attr :: after → (∀ b ∈ before, b.WellFormed) →
      attr.Flaw after.isEmpty e → Refused g e
  | unread : (∀ attr ∈ g.attrs, attr.WellFormed) → (∃ attr ∈ g.attrs, attr.Unread) →
      Refused g .unreadTokens

namespace Attributes

variable {a a' : Attributes} {e : AttrError} {attrs : List Attr}

/-- **Attributes are taken one by one,** and what is left unread is noticed behind the last. -/
theorem addAll_eq_error_iff : addAll a attrs = .error e ↔
    (∃ before attr after, attrs = before ++ attr :: after ∧ (∀ b ∈ before, b.WellFormed) ∧
      attr.Flaw after.isEmpty e) ∨
    (∀ attr ∈ attrs, attr.WellFormed) ∧ (a.unread = true ∨ ∃ attr ∈ attrs, attr.Unread) ∧
      e = .unreadTokens := by
  -- of what is known only the note of unread tokens matters, to what is found at the end
  induction attrs generalizing a with
  | nil => cases hunread : a.unread <;> simp [addAll, hunread, eq_comm]
  | cons attr rest ih =>
    rw [Outcome.exists_first_cons_iff (Q := fun (attr : Attr) after => attr.Flaw after.isEmpty e),
      List.forall_mem_cons, List.exists_mem_cons_iff, addAll]
    cases hadd : add a attr rest.isEmpty with
    | error e' =>
      have hflaw := add_eq_error_iff.mp hadd
      have hnot : ¬ attr.WellFormed := fun h => (Attr.wellFormed_iff _).mp h _ hflaw
      simp only [hnot, false_and, or_false, ← add_eq_error_iff (a := a), hadd]
    | ok b =>
      have hno (e : AttrError) : ¬ attr.Flaw rest.isEmpty e := by
        rw [← add_eq_error_iff (a := a), hadd]
        simp
      have hwell : attr.WellFormed := (Attr.wellFormed_iff _).mpr hno
      simp only [hno, hwell, false_or, true_and, ih, unread_of_add hadd, or_assoc]

/-- whether a group of attributes is accepted -/
def checkGroup (g : AttrGroup) : Except AttrError Unit := (addAll empty g.attrs).map fun _ => ()

/-- what is known does not matter to whether more is accepted -/
theorem addAll_map_unit (h : a.unread = false) (g : AttrGroup) :
    (addAll a g.attrs).map (fun _ => ()) = checkGroup g := by
  have herror (e : AttrError) : addAll a g.attrs = .error e ↔ addAll empty g.attrs = .error e := by
    rw [addAll_eq_error_iff, addAll_eq_error_iff, h]
    rfl
  unfold checkGroup
  cases hall : addAll a g.attrs with
  | error e => rw [(herror e).mp hall]
  | ok a' =>
    cases hempty : addAll empty g.attrs with
    | error e =>
      rw [(herror e).mpr hempty] at hall
      cases hall
    | ok b => rfl

/-- nothing is left unread by a group that is accepted, so the next starts afresh -/
theorem unread_of_addAll (h : addAll a attrs = .ok a') : a'.unread = false := by
  induction attrs generalizing a with
  | nil =>
    rw [addAll] at h
    split at h
    · cases h
    · rename_i hunread
      cases h
      exact Bool.eq_false_iff.mpr hunread
  | cons attr rest ih =>
    rw [addAll] at h
    split at h
    · cases h
    · exact ih h

end Attributes

/-- the groups of attributes that count -/
def serdeGroups (groups : List AttrGroup) : List AttrGroup := groups.filter (·.name = "serde")

theorem serdeGroups_append (groups more : List AttrGroup) :
    serdeGroups (groups ++ more) = serdeGroups groups ++ serdeGroups more := List.filter_append ..

namespace AttrGroup

variable {g : AttrGroup} {e : AttrError}

theorem checkGroup_eq_error_iff : Attributes.checkGroup g = .error e ↔ g.Refused e := by
  rw [Attributes.checkGroup, Outcome.map_eq_error_iff, Attributes.addAll_eq_error_iff]
  have hread : Attributes.empty.unread = true ↔ False := by decide
  rw [hread, false_or]
  constructor
  · rintro (⟨before, attr, after, hsplit, hbefore, hflaw⟩ | ⟨hwell, hunread, rfl⟩)
    · exact .flaw hsplit hbefore hflaw
    · exact .unread hwell hunread
  · intro h
    cases h with
    | flaw hsplit hbefore hflaw => exact .inl ⟨_, _, _, hsplit, hbefore, hflaw⟩
    | unread hwell hunread => exact .inr ⟨hwell, hunread, rfl⟩

/-- **The groups that are not refused:** all their attributes are of the right form, and none leaves
tokens unread. -/
theorem not_refused_iff : (∀ e, ¬ g.Refused e) ↔
    ∀ attr ∈ g.attrs, attr.WellFormed ∧ ¬ attr.Unread := by
  constructor
  · intro hno
    have hwell : ∀ attr ∈ g.attrs, attr.WellFormed := by
      by_contra hsome
      obtain ⟨before, attr, after, hsplit, hbefore, hill⟩ := Outcome.exists_first_not_iff.mpr hsome
      rw [Attr.wellFormed_iff after.isEmpty] at hill
      push Not at hill
      obtain ⟨e, hflaw⟩ := hill
      exact hno e (.flaw hsplit hbefore hflaw)
    exact fun attr hmem => ⟨hwell attr hmem, fun h => hno _ (.unread hwell ⟨attr, hmem, h⟩)⟩
  · intro hall e h
    cases h with
    | flaw hsplit _ hflaw =>
      have hwell := (hall _ (hsplit ▸ List.mem_append_right _ List.mem_cons_self)).1
      exact (Attr.wellFormed_iff _).mp hwell _ hflaw
    | unread _ hunread =>
      obtain ⟨attr, hmem, h⟩ := hunread
      exact (hall attr hmem).2 h

theorem checkGroup_eq_ok_iff : Attributes.checkGroup g = .ok () ↔
    ∀ attr ∈ g.attrs, attr.WellFormed ∧ ¬ attr.Unread := by
  rw [Outcome.eq_ok_iff_forall_ne, ← not_refused_iff]
  exact forall_congr' fun e => not_congr checkGroup_eq_error_iff

end AttrGroup

namespace Attributes

theorem addGroups_map_unit {a : Attributes} (h : a.unread = false) (groups : List AttrGroup) :
    (addGroups a groups).map (fun _ => ()) = Outcome.all checkGroup (serdeGroups groups) := by
  induction groups generalizing a with
  | nil => rfl
  | cons g rest ih =>
    rw [addGroups, serdeGroups, List.filter_cons]
    by_cases hg : g.name = "serde"
    · rw [if_pos hg, if_pos (decide_eq_true hg), Outcome.all, ← addAll_map_unit h g]
      cases hall : addAll a g.attrs with
      | error e => rfl
      | ok b => exact ih (unread_of_addAll hall)
    · rw [if_neg hg, if_neg (by simpa using hg)]
      exact ih h

/-- **Groups are looked at one by one.** -/
theorem ofGroups_map_unit (groups : List AttrGroup) :
    (ofGroups groups).map (fun _ => ()) = Outcome.all checkGroup (serdeGroups groups) :=
  addGroups_map_unit rfl groups

end Attributes

/-! ### items -/

namespace Item

variable {τ : Type} {i : Item τ} {own : Attributes} {fields : List (FieldItem τ × Attributes)}

/-- **The groups of attributes of an item that count,** its own in front of those of its fields. -/
def allGroups (i : Item τ) : List AttrGroup :=
  serdeGroups (i.attrs ++ i.fields.flatMap (·.attrs))

theorem attributes_map_unit (h : i.kind = .named) :
    i.attributes.map (fun _ => ()) = Outcome.all Attributes.checkGroup i.allGroups := by
  have hfields : (Outcome.each (fun f => (Attributes.ofGroups f.attrs).map fun a => (f, a))
      i.fields).map (fun _ => ()) = Outcome.all Attributes.checkGroup
        (serdeGroups (i.fields.flatMap (·.attrs))) := by
    rw [Outcome.each_map_unit, serdeGroups, List.filter_flatMap, Outcome.all_flatMap]
    refine Outcome.all_congr fun f _ => ?_
    have hgroups := Attributes.ofGroups_map_unit f.attrs
    cases hof : Attributes.ofGroups f.attrs <;> rw [hof] at hgroups <;> exact hgroups
  have hown := Attributes.ofGroups_map_unit i.attrs
  rw [allGroups, serdeGroups_append, Outcome.all_append, ← hown, ← hfields, attributes]
  cases Attributes.ofGroups i.attrs with
  | error e => rfl
  | ok own =>
    dsimp only
    rw [if_pos h]
    cases Outcome.each (fun f => (Attributes.ofGroups f.attrs).map fun a => (f, a)) i.fields <;> rfl

theorem sentFields_eq (h : i.attributes = .ok (own, fields)) :
    i.sentFields = (fields.filter (·.2.inValue)).map Prod.fst := by
  obtain ⟨-, hfields, hattrs⟩ := attributes_ok h
  rw [sentFields, ← hfields, List.filter_map]
  refine congrArg _ (List.filter_congr fun p hp => ?_)
  exact (FieldItem.inValue_eq (hattrs p hp)).symm

/-- **The record that a described item becomes** where its attributes are not refused. -/
def derived (i : Item τ) : Derived τ where
  target := i.target
  shape := i.readFields.map fun f => (f.givenName i.rule?, f.type)
  value := i.sentFields.map fun f => (f.givenName i.rule?, f.ident)
  bounds := (i.params.filterMap (·.1.typeName?)).map (· ++ ":gqlbind::types::FieldEnumerable")

theorem derive_of_attributes (h : i.attributes = .ok (own, fields)) :
    i.derive = .ok i.derived := by
  obtain ⟨hrule, -, hattrs⟩ := attributes_ok h
  have hname (p : FieldItem τ × Attributes) (hp : p ∈ fields) :
      p.1.graphqlName own.renameAll p.2 = p.1.givenName i.rule? :=
    hrule ▸ FieldItem.graphqlName_eq (hattrs p hp)
  have hshape : i.derived.shape = (fields.filter (·.2.inShape)).map fun p =>
      (p.1.graphqlName own.renameAll p.2, p.1.type) := by
    rw [derived, readFields_eq h, List.map_map]
    refine List.map_congr_left fun p hp => ?_
    rw [hname p (List.mem_of_mem_filter hp)]
    rfl
  have hvalue : i.derived.value = (fields.filter (·.2.inValue)).map fun p =>
      (p.1.graphqlName own.renameAll p.2, p.1.ident) := by
    rw [derived, sentFields_eq h, List.map_map]
    refine List.map_congr_left fun p hp => ?_
    rw [hname p (List.mem_of_mem_filter hp)]
    rfl
  have hderived : (⟨i.target, i.derived.shape, i.derived.value, i.bounds⟩ : Derived τ) =
      i.derived := rfl
  rw [derive, h, ← hderived, hshape, hvalue]
  rfl

theorem derive_eq_error_iff {e : AttrError} (h : i.kind = .named) : i.derive = .error e ↔
    ∃ before g after, i.allGroups = before ++ g :: after ∧
      (∀ b ∈ before, ∀ attr ∈ b.attrs, attr.WellFormed ∧ ¬ attr.Unread) ∧ g.Refused e := by
  rw [derive, Outcome.map_eq_error_iff, ← Outcome.map_eq_error_iff (f := fun _ => ()),
    attributes_map_unit h, Outcome.all_eq_error_iff]
  simp only [AttrGroup.checkGroup_eq_ok_iff, AttrGroup.checkGroup_eq_error_iff]

theorem derive_eq_ok_iff {d : Derived τ} (h : i.kind = .named) : i.derive = .ok d ↔
    (∀ g ∈ i.allGroups, ∀ attr ∈ g.attrs, attr.WellFormed ∧ ¬ attr.Unread) ∧ d = i.derived := by
  have hpasses : (∀ g ∈ i.allGroups, ∀ attr ∈ g.attrs, attr.WellFormed ∧ ¬ attr.Unread) ↔
      ∃ both, i.attributes = .ok both := by
    rw [← Outcome.map_unit_eq_ok_iff, attributes_map_unit h, Outcome.all_eq_ok_iff]
    simp only [AttrGroup.checkGroup_eq_ok_iff]
  rw [hpasses]
  constructor
  · intro hd
    obtain ⟨⟨own, fields⟩, hattr, -⟩ := Outcome.map_eq_ok_iff.mp hd
    rw [derive_of_attributes hattr] at hd
    exact ⟨⟨_, hattr⟩, (Except.ok.inj hd).symm⟩
  · rintro ⟨⟨⟨own, fields⟩, hattr⟩, rfl⟩
    exact derive_of_attributes hattr

/-- **A record is derived as its attributes say, or refused for the first flaw in them.**  It is
refused just if an attribute that counts, of the record or of any of its fields, is not of its form,
or is passed over and leaves tokens unread; and for the first group that has such an attribute.  Else
the fields that are asked for are those without a mark that keeps them from being read, those that are
sent are those without one that keeps them from being written, both in their order and under the same
names, and each type among the parameters is bound, in order. -/
theorem derive_outcome (h : i.kind = .named) :
    ((∃ e, i.derive = .error e) ↔
      ∃ g ∈ i.allGroups, ∃ attr ∈ g.attrs, ¬ attr.WellFormed ∨ attr.Unread) ∧
    (∀ e, i.derive = .error e ↔ ∃ before g after, i.allGroups = before ++ g :: after ∧
      (∀ b ∈ before, ∀ attr ∈ b.attrs, attr.WellFormed ∧ ¬ attr.Unread) ∧ g.Refused e) ∧
    ∀ d, i.derive = .ok d ↔
      (∀ g ∈ i.allGroups, ∀ attr ∈ g.attrs, attr.WellFormed ∧ ¬ attr.Unread) ∧
      d = ⟨i.target, i.readFields.map fun f => (f.givenName i.rule?, f.type),
        i.sentFields.map fun f => (f.givenName i.rule?, f.ident),
        (i.params.filterMap (·.1.typeName?)).map (· ++ ":gqlbind::types::FieldEnumerable")⟩ := by
  refine ⟨?_, fun _ => derive_eq_error_iff h, fun _ => derive_eq_ok_iff h⟩
  have hfails : (∃ e, i.derive = .error e) ↔ ¬ ∃ d, i.derive = .ok d := by
    cases i.derive <;> simp
  rw [hfails]
  simp only [derive_eq_ok_iff h, exists_and_left, exists_eq, and_true, not_forall, not_and_or,
    not_not, exists_prop]

/-- a record with a field that is renamed behind a bound -/
def boundItem : Item String where
  kind := .named
  name := "Sample"
  params := []
  attrs := []
  fields := [
    ⟨"some_field", "i32",
      [⟨"serde", [⟨"bound", .list [("serialize", .text "T: X")]⟩, ⟨"rename", .value (.text "ren")⟩]⟩]⟩,
    ⟨"z_last", "Option<Vec<String>>", []⟩]

/-- All attributes are of the right form, and the names follow from them; but the bound is passed over
and leaves its tokens unread. -/
theorem boundItem_refused :
    boundItem.kind = .named ∧ boundItem.derive = .error .unreadTokens ∧
    (∀ g ∈ boundItem.allGroups, ∀ attr ∈ g.attrs, attr.WellFormed) ∧
    (∃ g ∈ boundItem.allGroups, ∃ attr ∈ g.attrs, attr.Unread) ∧
    boundItem.derived.shape = [("ren", "i32"), ("z_last", "Option<Vec<String>>")] ∧
    boundItem.derived.value = [("ren", "some_field"), ("z_last", "z_last")] := by
  have hkind : boundItem.kind = .named := rfl
  have hderive : boundItem.derive = .error .unreadTokens := by rfl
  have hbound : Attr.WellFormed ⟨"bound", .list [("serialize", .text "T: X")]⟩ :=
    ⟨by simp [nameMarks], by simp, by simp [skipMarks]⟩
  have hrename : Attr.WellFormed ⟨"rename", .value (.text "ren")⟩ :=
    ⟨fun _ => .text "ren", by simp, by simp [skipMarks]⟩
  have hwell : ∀ g ∈ boundItem.allGroups, ∀ attr ∈ g.attrs, attr.WellFormed := by
    simp [boundItem, allGroups, serdeGroups, hbound, hrename]
  obtain ⟨hfails, -⟩ := derive_outcome hkind
  obtain ⟨g, hg, attr, hattr, hflawed⟩ := hfails.mp ⟨_, hderive⟩
  have hunread : attr.Unread := hflawed.resolve_left (not_not_intro (hwell g hg attr hattr))
  exact ⟨hkind, hderive, hwell, ⟨g, hg, attr, hattr, hunread⟩, by rfl, by rfl⟩

end Item

end GraphQLCall
