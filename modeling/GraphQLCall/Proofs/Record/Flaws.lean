import GraphQLCall.Proofs.Record.Names

/-!
# Records: attributes that are refused

An attribute that gives a name, or leaves a field out, has a form of its own, and is refused where it
does not have it.  Any other is passed over, but not what it has in parentheses: these tokens are left
unread.

* `nameMarks`, `IsNameEntry`, `AttrArgument.GivesName`   the attributes that give names, and how
* `Attr.WellFormed`, `Attr.Unread`   the attributes of the right form, and those that leave tokens
* `EntryFlaw`, `AttrArgument.NameFlaw`, `Attr.Flaw`   why an attribute is refused
* `Attributes.nameGiven_eq_error_iff`, `Attributes.nameGiven_eq_ok_iff`   the name that is given
* `Attributes.add_eq_error_iff`, `Attributes.unread_of_add`   one more attribute
* `Attr.wellFormed_iff`   just those without a flaw are of the right form
-/

namespace GraphQLCall

/-! ### attributes -/

/-- the marks that give a name -/
def nameMarks : List String := ["rename", "rename_all"]

/-- an entry of a list of names: a text for writing or for reading -/
def IsNameEntry (entry : String × AttrLiteral) : Prop :=
  (entry.1 = "serialize" ∨ entry.1 = "deserialize") ∧ ∃ s, entry.2 = .text s

/-- why an entry is none of a list of names -/
inductive EntryFlaw : String × AttrLiteral → AttrError → Prop
  | literal (form : String) : EntryFlaw (form, .other) .textExpected
  | form {form s : String} : form ≠ "serialize" → form ≠ "deserialize" →
      EntryFlaw (form, .text s) .unknownForm

namespace AttrArgument

/-- **The arguments that give names:** a text, or a list with a text for each form. -/
inductive GivesName : AttrArgument → Prop
  | text (s : String) : GivesName (.value (.text s))
  | list {entries : List (String × AttrLiteral)} : entries ≠ [] →
      (∀ e ∈ entries, IsNameEntry e) → GivesName (.list entries)

/-- why an argument, the last of its group if `atEnd` says so, gives no name -/
inductive NameFlaw (atEnd : Bool) : AttrArgument → AttrError → Prop
  | none : NameFlaw atEnd .none (.parenthesesExpected atEnd)
  | literal : NameFlaw atEnd (.value .other) .textExpected
  | empty : NameFlaw atEnd (.list []) .entryExpected
  | entry {before after : List (String × AttrLiteral)} {entry : String × AttrLiteral}
      {e : AttrError} : (∀ b ∈ before, IsNameEntry b) → EntryFlaw entry e →
      NameFlaw atEnd (.list (before ++ entry :: after)) e

end AttrArgument

/-- **The attributes of the right form:** those that give names do, and a rule that there is; and
those that leave a field out have no argument. -/
structure Attr.WellFormed (attr : Attr) : Prop where
  name : attr.name ∈ nameMarks → attr.argument.GivesName
  rule : attr.name = "rename_all" → ∀ s, attr.argument.readTexts.getLast? = some s →
    ∃ rule : RenameRule, rule.text = s
  skip : attr.name ∈ skipMarks → attr.argument = .none

/-- **The attributes that leave tokens unread:** those that are passed over and have something in
parentheses. -/
def Attr.Unread (attr : Attr) : Prop :=
  attr.name ∉ nameMarks ∧ attr.name ∉ skipMarks ∧
    ∃ entry rest, attr.argument = .list (entry :: rest)

/-- **Why an attribute,** the last of its group if `atEnd` says so, **is refused.** -/
inductive Attr.Flaw (atEnd : Bool) (attr : Attr) : AttrError → Prop
  | name {e : AttrError} : attr.name ∈ nameMarks → attr.argument.NameFlaw atEnd e → Flaw atEnd attr e
  | rule {s : String} : attr.name = "rename_all" → attr.argument.GivesName →
      attr.argument.readTexts.getLast? = some s → (∀ rule : RenameRule, rule.text ≠ s) →
      Flaw atEnd attr (.unknownRule s)
  | skip : attr.name ∈ skipMarks → attr.argument ≠ .none → Flaw atEnd attr .commaExpected

namespace RenameRule

theorem ofText?_eq_none_iff {s : String} :
    ofText? s = none ↔ ∀ rule : RenameRule, rule.text ≠ s := by
  rw [ofText?, List.find?_eq_none]
  refine ⟨fun h rule hrule => ?_, fun h rule _ => by simpa using h rule⟩
  have hmem : rule ∈ all := by cases rule <;> decide
  exact h rule hmem (decide_eq_true hrule)

end RenameRule

namespace Attr

variable {atEnd : Bool} {attr : Attr} {e : AttrError}

theorem flaw_iff_of_rename (h : attr.name = "rename") :
    attr.Flaw atEnd e ↔ attr.argument.NameFlaw atEnd e := by
  constructor
  · intro hflaw
    cases hflaw with
    | name _ hname => exact hname
    | rule hall => simp [h] at hall
    | skip hskip => simp [h, skipMarks] at hskip
  · exact .name (by simp [h, nameMarks])

theorem flaw_iff_of_rename_all (h : attr.name = "rename_all") :
    attr.Flaw atEnd e ↔ attr.argument.NameFlaw atEnd e ∨ attr.argument.GivesName ∧
      ∃ s, attr.argument.readTexts.getLast? = some s ∧ RenameRule.ofText? s = none ∧
        e = .unknownRule s := by
  constructor
  · intro hflaw
    cases hflaw with
    | name _ hname => exact .inl hname
    | rule _ hgives hlast hnone =>
      exact .inr ⟨hgives, _, hlast, RenameRule.ofText?_eq_none_iff.mpr hnone, rfl⟩
    | skip hskip => simp [h, skipMarks] at hskip
  · rintro (hname | ⟨hgives, s, hlast, hnone, rfl⟩)
    · exact .name (by simp [h, nameMarks]) hname
    · exact .rule h hgives hlast (RenameRule.ofText?_eq_none_iff.mp hnone)

theorem not_mem_nameMarks (h : attr.name ∈ skipMarks) : attr.name ∉ nameMarks := by
  simp only [skipMarks, List.mem_cons, List.not_mem_nil, or_false] at h
  rcases h with h | h | h <;> simp [h, nameMarks]

theorem flaw_iff_of_skip (h : attr.name ∈ skipMarks) :
    attr.Flaw atEnd e ↔ attr.argument ≠ .none ∧ e = .commaExpected := by
  constructor
  · intro hflaw
    cases hflaw with
    | name hname => exact absurd hname (not_mem_nameMarks h)
    | rule hall => simp [hall, skipMarks] at h
    | skip _ hargument => exact ⟨hargument, rfl⟩
  · rintro ⟨hargument, rfl⟩
    exact .skip h hargument

theorem not_flaw (hname : attr.name ∉ nameMarks) (hskip : attr.name ∉ skipMarks) :
    ¬ attr.Flaw atEnd e := by
  intro hflaw
  cases hflaw with
  | name h => exact hname h
  | rule h => exact hname (by simp [h, nameMarks])
  | skip h => exact hskip h

end Attr

namespace Attributes

variable {atEnd : Bool} {a a' : Attributes} {attr : Attr} {argument : AttrArgument} {e : AttrError}
  {entries : List (String × AttrLiteral)} {found r : Option String}

/-! ### names -/

/-- whether an entry is one of a list of names -/
def checkEntry : String × AttrLiteral → Except AttrError Unit
  | (_, .other) => .error .textExpected
  | (form, .text _) =>
    if form = "serialize" ∨ form = "deserialize" then .ok () else .error .unknownForm

theorem checkEntry_eq_ok_iff {entry : String × AttrLiteral} :
    checkEntry entry = .ok () ↔ IsNameEntry entry := by
  obtain ⟨form, literal⟩ := entry
  cases literal with
  | other => simp [checkEntry, IsNameEntry]
  | text s =>
    rw [checkEntry, IsNameEntry]
    split
    · rename_i hform
      simp [hform]
    · rename_i hform
      simp [hform]

theorem checkEntry_eq_error_iff {entry : String × AttrLiteral} :
    checkEntry entry = .error e ↔ EntryFlaw entry e := by
  obtain ⟨form, literal⟩ := entry
  cases literal with
  | other =>
    constructor
    · intro h
      cases h
      exact .literal form
    · intro h
      cases h
      rfl
  | text s =>
    constructor
    · intro h
      rw [checkEntry] at h
      split at h
      · cases h
      · rename_i hform
        cases h
        obtain ⟨hwrite, hread⟩ := not_or.mp hform
        exact .form hwrite hread
    · intro h
      cases h with
      | form hwrite hread => exact if_neg (not_or.mpr ⟨hwrite, hread⟩)

theorem readName_map_unit (found : Option String) (entries : List (String × AttrLiteral)) :
    (readName found entries).map (fun _ => ()) = Outcome.all checkEntry entries := by
  induction entries generalizing found with
  | nil => rfl
  | cons entry rest ih =>
    obtain ⟨form, literal⟩ := entry
    cases literal with
    | other => rfl
    | text s =>
      rw [readName, Outcome.all, checkEntry]
      by_cases hread : form = "deserialize"
      · rw [if_pos hread, if_pos (.inr hread), ih]
      · by_cases hwrite : form = "serialize"
        · rw [if_neg hread, if_pos hwrite, if_pos (.inl hwrite), ih]
        · rw [if_neg hread, if_neg hwrite, if_neg (not_or.mpr ⟨hwrite, hread⟩)]
          rfl

theorem readName_eq_error_iff :
    readName found entries = .error e ↔ ∃ before entry after, entries = before ++ entry :: after ∧
      (∀ b ∈ before, IsNameEntry b) ∧ EntryFlaw entry e := by
  rw [← Outcome.map_eq_error_iff, readName_map_unit found, Outcome.all_eq_error_iff]
  simp only [checkEntry_eq_ok_iff, checkEntry_eq_error_iff]

theorem readName_passes_iff :
    (∃ r, readName found entries = .ok r) ↔ ∀ e ∈ entries, IsNameEntry e := by
  rw [← Outcome.map_unit_eq_ok_iff, readName_map_unit, Outcome.all_eq_ok_iff]
  simp only [checkEntry_eq_ok_iff]

theorem nameGiven_list (h : entries ≠ []) (atEnd : Bool) :
    nameGiven (.list entries) atEnd = readName none entries := by
  cases entries with
  | nil => exact absurd rfl h
  | cons entry rest => rfl

theorem nameGiven_eq_error_iff :
    nameGiven argument atEnd = .error e ↔ argument.NameFlaw atEnd e := by
  constructor
  · intro h
    unfold nameGiven at h
    split at h
    · cases h
    · cases h
      exact .literal
    · cases h
      exact .empty
    · obtain ⟨before, entry, after, rfl, hbefore, hentry⟩ := readName_eq_error_iff.mp h
      exact .entry hbefore hentry
    · cases h
      exact .none
  · intro h
    cases h with
    | none | literal | empty => rfl
    | entry hbefore hentry =>
      rw [nameGiven_list (List.append_ne_nil_of_right_ne_nil _ (List.cons_ne_nil _ _))]
      exact readName_eq_error_iff.mpr ⟨_, _, _, rfl, hbefore, hentry⟩

/-- **The arguments that give names,** and the one that is given for reading. -/
theorem nameGiven_eq_ok_iff : nameGiven argument atEnd = .ok r ↔
    argument.GivesName ∧ r = argument.readTexts.getLast? := by
  constructor
  · intro h
    refine ⟨?_, nameGiven_ok h⟩
    unfold nameGiven at h
    split at h
    · exact .text _
    · cases h
    · cases h
    · rename_i hne
      exact .list hne (readName_passes_iff.mp ⟨r, h⟩)
    · cases h
  · rintro ⟨hgives, rfl⟩
    cases hgives with
    | text s => rfl
    | list hne hall =>
      obtain ⟨r, hr⟩ := readName_passes_iff.mpr hall
      rw [← nameGiven_list hne atEnd] at hr
      rw [hr, ← nameGiven_ok hr]

/-! ### one more attribute -/

theorem add_of_rename (h : attr.name = "rename") : add a attr atEnd =
    (nameGiven attr.argument atEnd).map fun o => { a with rename := o.or a.rename } := by
  rw [add, if_pos h]
  cases nameGiven attr.argument atEnd with
  | error e => rfl
  | ok o => cases o <;> rfl

theorem add_of_rename_all (h : attr.name = "rename_all") : add a attr atEnd =
    match nameGiven attr.argument atEnd with
    | .error e => .error e
    | .ok none => .ok a
    | .ok (some s) =>
      match RenameRule.ofText? s with
      | some rule => .ok { a with renameAll := some rule }
      | none => .error (.unknownRule s) := by
  have hnot : attr.name ≠ "rename" := by simp [h]
  exact (if_neg hnot).trans (if_pos h)

theorem add_of_skip (a : Attributes) (atEnd : Bool) (h : attr.name ∈ skipMarks) :
    ∃ b, b.unread = a.unread ∧ add a attr atEnd = flag b attr.argument := by
  obtain ⟨name, argument⟩ := attr
  simp only [skipMarks, List.mem_cons, List.not_mem_nil, or_false] at h
  rcases h with rfl | rfl | rfl
  · exact ⟨{ a with skip := true }, rfl, rfl⟩
  · exact ⟨{ a with skipRead := true }, rfl, rfl⟩
  · exact ⟨{ a with skipSend := true }, rfl, rfl⟩

/-- what is passed over is not refused, but noted if it leaves tokens unread -/
theorem add_of_passed (a : Attributes) (atEnd : Bool) (hname : attr.name ∉ nameMarks)
    (hskip : attr.name ∉ skipMarks) :
    ∃ b, add a attr atEnd = .ok b ∧ (b.unread = true ↔ a.unread = true ∨ attr.Unread) := by
  have hunread : attr.Unread ↔ ∃ entry rest, attr.argument = .list (entry :: rest) := by
    simp [Attr.Unread, hname, hskip]
  simp only [nameMarks, skipMarks, List.mem_cons, List.not_mem_nil, or_false, not_or] at hname hskip
  rw [hunread, add, if_neg hname.1, if_neg hname.2, if_neg hskip.1, if_neg hskip.2.1,
    if_neg hskip.2.2]
  cases hargument : attr.argument with
  | none => by_cases hdefault : attr.name = "default" <;> simp [hdefault]
  | value literal => by_cases hdefault : attr.name = "default" <;> simp [hdefault]
  | list entries =>
    cases entries with
    | nil => by_cases hdefault : attr.name = "default" <;> simp [hdefault]
    | cons entry rest => simp

theorem flag_eq_error_iff : flag a argument = .error e ↔ argument ≠ .none ∧ e = .commaExpected := by
  cases argument <;> simp [flag, eq_comm]

/-- **An attribute is refused for its flaws.** -/
theorem add_eq_error_iff : add a attr atEnd = .error e ↔ attr.Flaw atEnd e := by
  by_cases hrename : attr.name = "rename"
  · rw [Attr.flaw_iff_of_rename hrename, add_of_rename hrename, Outcome.map_eq_error_iff,
      nameGiven_eq_error_iff]
  by_cases hall : attr.name = "rename_all"
  · rw [Attr.flaw_iff_of_rename_all hall, ← nameGiven_eq_error_iff, add_of_rename_all hall]
    cases hgiven : nameGiven attr.argument atEnd with
    | error e' =>
      have hnot : ¬ attr.argument.GivesName := by
        intro hgives
        rw [nameGiven_eq_ok_iff.mpr ⟨hgives, rfl⟩] at hgiven
        cases hgiven
      simp [hnot]
    | ok o =>
      obtain ⟨hgives, rfl⟩ := nameGiven_eq_ok_iff.mp hgiven
      cases hlast : attr.argument.readTexts.getLast? with
      | none => simp
      | some s => cases hrule : RenameRule.ofText? s <;> simp [hrule, hgives, eq_comm]
  have hname : attr.name ∉ nameMarks := by simp [nameMarks, hrename, hall]
  by_cases hskip : attr.name ∈ skipMarks
  · obtain ⟨b, -, hadd⟩ := add_of_skip a atEnd hskip
    rw [Attr.flaw_iff_of_skip hskip, hadd, flag_eq_error_iff]
  · obtain ⟨b, hadd, -⟩ := add_of_passed a atEnd hname hskip
    rw [hadd]
    exact ⟨nofun, fun h => absurd h (Attr.not_flaw hname hskip)⟩

theorem unread_of_add (h : add a attr atEnd = .ok a') :
    a'.unread = true ↔ a.unread = true ∨ attr.Unread := by
  have hkept (hmark : attr.name ∈ nameMarks ∨ attr.name ∈ skipMarks)
      (hsame : a'.unread = a.unread) : a'.unread = true ↔ a.unread = true ∨ attr.Unread := by
    have hnot : ¬ attr.Unread := fun hunread => hmark.elim hunread.1 hunread.2.1
    simp [hsame, hnot]
  by_cases hrename : attr.name = "rename"
  · rw [add_of_rename hrename] at h
    obtain ⟨o, -, rfl⟩ := Outcome.map_eq_ok_iff.mp h
    exact hkept (.inl (by simp [hrename, nameMarks])) rfl
  by_cases hall : attr.name = "rename_all"
  · refine hkept (.inl (by simp [hall, nameMarks])) ?_
    rw [add_of_rename_all hall] at h
    split at h
    · cases h
    · cases h
      rfl
    · split at h
      · cases h
        rfl
      · cases h
  have hname : attr.name ∉ nameMarks := by simp [nameMarks, hrename, hall]
  by_cases hskip : attr.name ∈ skipMarks
  · obtain ⟨b, hsame, hadd⟩ := add_of_skip a atEnd hskip
    rw [hadd] at h
    exact hkept (.inr hskip) (flag_ok h ▸ hsame)
  · obtain ⟨b, hadd, hunread⟩ := add_of_passed a atEnd hname hskip
    rw [hadd] at h
    cases h
    exact hunread

end Attributes

/-- **The attributes of the right form are those without a flaw.** -/
theorem Attr.wellFormed_iff {attr : Attr} (atEnd : Bool) :
    attr.WellFormed ↔ ∀ e, ¬ attr.Flaw atEnd e := by
  constructor
  · intro hwell e hflaw
    cases hflaw with
    | name hname hnoName =>
      have hgiven : Attributes.nameGiven attr.argument atEnd = .ok _ :=
        Attributes.nameGiven_eq_ok_iff.mpr ⟨hwell.name hname, rfl⟩
      rw [Attributes.nameGiven_eq_error_iff.mpr hnoName] at hgiven
      cases hgiven
    | rule hname _ hlast hnone =>
      obtain ⟨rule, hrule⟩ := hwell.rule hname _ hlast
      exact hnone rule hrule
    | skip hskip hargument => exact hargument (hwell.skip hskip)
  · intro hno
    have hgives (hname : attr.name ∈ nameMarks) : attr.argument.GivesName := by
      cases hgiven : Attributes.nameGiven attr.argument atEnd with
      | error e => exact absurd (.name hname (Attributes.nameGiven_eq_error_iff.mp hgiven)) (hno e)
      | ok o => exact (Attributes.nameGiven_eq_ok_iff.mp hgiven).1
    refine ⟨hgives, fun hname s hlast => ?_, fun hskip => ?_⟩
    · by_contra hnone
      have hmark : attr.name ∈ nameMarks := by simp [hname, nameMarks]
      exact hno _ (.rule hname (hgives hmark) hlast (not_exists.mp hnone))
    · by_contra hargument
      exact hno _ (.skip hskip hargument)

end GraphQLCall
