import GraphQLCall.Proofs.Syntax.Document
import GraphQLCall.Proofs.Syntax.Spelling

/-!
# Calls: what is written of an argument

An argument's literal spells its value without the fields that are null or ignored.

* `Value.prune`   a value without those fields
* `Value.Named`   all keys of a value are names
* `OperationCall.written`   the arguments of a call that are written, with what is written of them
* `spells_ofValue`   a literal spells what is written of its value
* `spells_encodeAll`   the arguments of a call spell those that are written
-/

namespace GraphQLCall

namespace Value

mutual

/-- **A value without the fields that are null or ignored,** at a place of an argument.  The elements
of a list stay, at the place of their list. -/
def prune (m : Markers) (path : FieldPath) : Value → Value
  | .list items => .list (pruneItems m path items)
  | .object entries => .object (pruneEntries m path entries)
  | v => v

def pruneItems (m : Markers) (path : FieldPath) : List Value → List Value
  | [] => []
  | v :: rest => prune m path v :: pruneItems m path rest

def pruneEntries (m : Markers) (path : FieldPath) :
    List (String × Value) → List (String × Value)
  | [] => []
  | (name, v) :: rest =>
    if m.isIgnored (path.child name) || v.isNull then pruneEntries m path rest
    else (name, prune m (path.child name) v) :: pruneEntries m path rest

end

mutual

/-- **All keys of a value are names.** -/
def Named : Value → Prop
  | .list items => ItemsNamed items
  | .object entries => EntriesNamed entries
  | _ => True

def ItemsNamed : List Value → Prop
  | [] => True
  | v :: rest => Named v ∧ ItemsNamed rest

def EntriesNamed : List (String × Value) → Prop
  | [] => True
  | (name, v) :: rest => isName name ∧ Named v ∧ EntriesNamed rest

end

variable {m : Markers}

mutual

theorem Named.prune {v : Value} (path : FieldPath) (h : v.Named) : (v.prune m path).Named := by
  match v with
  | .list items => exact ItemsNamed.prune path h
  | .object entries => exact EntriesNamed.prune path h
  | .null | .bool _ | .int _ | .float _ | .str _ => trivial

theorem ItemsNamed.prune {items : List Value} (path : FieldPath) (h : ItemsNamed items) :
    ItemsNamed (pruneItems m path items) := by
  match items with
  | [] => trivial
  | v :: rest => exact ⟨Named.prune path h.1, ItemsNamed.prune path h.2⟩

theorem EntriesNamed.prune {entries : List (String × Value)} (path : FieldPath)
    (h : EntriesNamed entries) : EntriesNamed (pruneEntries m path entries) := by
  match entries with
  | [] => trivial
  | (name, v) :: rest =>
    rw [pruneEntries]
    split
    · exact EntriesNamed.prune path h.2.2
    · exact ⟨h.1, Named.prune _ h.2.1, EntriesNamed.prune path h.2.2⟩

end

mutual

theorem named_of_lexemes {v : Value} (h : ∀ s, .name s ∈ v.lexemes → isName s) : v.Named := by
  match v with
  | .list items =>
    exact itemsNamed_of_lexemes fun s hs =>
      h s (List.mem_cons_of_mem _ (List.mem_append_left _ hs))
  | .object entries =>
    exact entriesNamed_of_lexemes fun s hs =>
      h s (List.mem_cons_of_mem _ (List.mem_append_left _ hs))
  | .null | .bool _ | .int _ | .float _ | .str _ => trivial

theorem itemsNamed_of_lexemes {items : List Value}
    (h : ∀ s, .name s ∈ itemLexemes items → isName s) : ItemsNamed items := by
  match items with
  | [] => trivial
  | v :: rest =>
    exact ⟨named_of_lexemes fun s hs => h s (List.mem_append_left _ hs),
      itemsNamed_of_lexemes fun s hs => h s (List.mem_append_right _ hs)⟩

theorem entriesNamed_of_lexemes {entries : List (String × Value)}
    (h : ∀ s, .name s ∈ entryLexemes entries → isName s) : EntriesNamed entries := by
  match entries with
  | [] => trivial
  | (name, v) :: rest =>
    have hrest (s : String) (hs : .name s ∈ v.lexemes ++ entryLexemes rest) : isName s :=
      h s (List.mem_cons_of_mem _ (List.mem_cons_of_mem _ hs))
    exact ⟨h name List.mem_cons_self,
      named_of_lexemes fun s hs => hrest s (List.mem_append_left _ hs),
      entriesNamed_of_lexemes fun s hs => hrest s (List.mem_append_right _ hs)⟩

end

theorem EntriesNamed.forall {entries : List (String × Value)} (h : EntriesNamed entries) :
    ∀ e ∈ entries, e.2.Named := by
  induction entries with
  | nil => exact fun e he => absurd he List.not_mem_nil
  | cons entry rest ih => exact List.forall_mem_cons.mpr ⟨h.2.1, ih h.2.2⟩

end Value

/-! ### literals -/

section
variable {m : Markers} {argument : String}

mutual

/-- **A literal spells what is written of its value.** -/
theorem spells_ofValue {v : Value} {path : FieldPath} {s : String} (raw : m.raw = false)
    (named : (v.prune m path).Named) (h : Literal.ofValue m argument path v = .ok s) :
    Spells s (v.prune m path).lexemes := by
  match v with
  | .null =>
    cases h
    exact .lexeme (.name (by decide))
  | .bool true =>
    cases h
    exact .lexeme (.name (by decide))
  | .bool false =>
    cases h
    exact .lexeme (.name (by decide))
  | .int n =>
    cases h
    exact spells_int n
  | .float x =>
    rw [Literal.ofValue] at h
    split at h
    · cases h
      exact spells_float ‹_›
    · cases h
  | .str t =>
    cases h
    rw [Literal.ofText, raw]
    exact spells_quote t
  | .list items =>
    rw [Literal.ofValue] at h
    cases hitems : Literal.ofItems m argument path items with
    | error e =>
      rw [hitems] at h
      cases h
    | ok ls =>
      rw [hitems] at h
      cases h
      exact .enclosed rfl rfl (by decide) (by decide) (spells_ofItems raw named hitems)
  | .object entries =>
    rw [Literal.ofValue] at h
    cases hfields : Literal.ofFields m argument path entries with
    | error e =>
      rw [hfields] at h
      cases h
    | ok ls =>
      rw [hfields] at h
      cases h
      exact .enclosed rfl rfl (by decide) (by decide) (spells_ofFields raw named hfields)

theorem spells_ofItems {items : List Value} {path : FieldPath} {ls : List String}
    (raw : m.raw = false) (named : Value.ItemsNamed (Value.pruneItems m path items))
    (h : Literal.ofItems m argument path items = .ok ls) :
    Spells (Text.join ", " ls) (Value.itemLexemes (Value.pruneItems m path items)) := by
  match items with
  | [] =>
    cases h
    exact .empty
  | v :: rest =>
    rw [Literal.ofItems] at h
    split at h
    · cases h
    · rename_i l hl
      cases hrest : Literal.ofItems m argument path rest with
      | error e =>
        rw [hrest] at h
        cases h
      | ok ls =>
        rw [hrest] at h
        cases h
        exact (spells_ofValue raw named.1 hl).join_cons (spells_ofItems raw named.2 hrest)

theorem spells_ofFields {entries : List (String × Value)} {path : FieldPath} {ls : List String}
    (raw : m.raw = false) (named : Value.EntriesNamed (Value.pruneEntries m path entries))
    (h : Literal.ofFields m argument path entries = .ok ls) :
    Spells (Text.join ", " ls) (Value.entryLexemes (Value.pruneEntries m path entries)) := by
  match entries with
  | [] =>
    cases h
    exact .empty
  | (name, v) :: rest =>
    rw [Literal.ofFields] at h
    rw [Value.pruneEntries] at named ⊢
    by_cases hskip : (m.isIgnored (path.child name) || v.isNull) = true
    · rw [if_pos hskip] at h named ⊢
      exact spells_ofFields raw named h
    · rw [if_neg hskip] at h named ⊢
      split at h
      · cases h
      · rename_i l hl
        cases hrest : Literal.ofFields m argument path rest with
        | error e =>
          rw [hrest] at h
          cases h
        | ok ls =>
          rw [hrest] at h
          cases h
          obtain ⟨hname, hv, hnamed⟩ := named
          exact (Spells.entry hname (spells_ofValue raw hv hl)).join_cons
            (spells_ofFields raw hnamed hrest)

end

end

/-! ### arguments -/

/-- what is written of an argument, `none` if its value is null -/
def Variable.written? (v : Variable) : Option (String × Value) :=
  if v.value.isNull then none else some (v.argumentName, v.value.prune v.markers .root)

/-- **The arguments of a call that are written,** in the order given. -/
def OperationCall.written (c : OperationCall) : List (String × Value) :=
  c.arguments.filterMap Variable.written?

theorem Variable.encode_cases {v : Variable} {o : Option String} (h : v.encode = .ok o) :
    (o = none ∧ v.written? = none) ∨
    ∃ l, Literal.ofValue v.markers v.argumentName .root v.value = .ok l ∧
      o = some (v.argumentName ++ ": " ++ l) ∧
      v.written? = some (v.argumentName, v.value.prune v.markers .root) := by
  unfold Variable.encode at h
  by_cases hnull : v.value.isNull
  · rw [if_pos hnull] at h
    cases h
    exact .inl ⟨rfl, if_pos hnull⟩
  · rw [if_neg hnull] at h
    cases hl : Literal.ofValue v.markers v.argumentName .root v.value with
    | error place =>
      rw [hl] at h
      cases h
    | ok l =>
      rw [hl] at h
      cases h
      exact .inr ⟨l, rfl, rfl, if_neg hnull⟩

theorem spells_encodeEach {vs : List Variable} {ls : List String}
    (raw : ∀ v ∈ vs, v.markers.raw = false) (names : ∀ v ∈ vs, isName v.argumentName)
    (named : ∀ e ∈ vs.filterMap Variable.written?, e.2.Named)
    (h : Variable.encodeEach vs = .ok ls) :
    Spells (Text.join ", " ls) (Value.entryLexemes (vs.filterMap Variable.written?)) ∧
      (ls = [] ↔ vs.filterMap Variable.written? = []) := by
  induction vs generalizing ls with
  | nil =>
    cases h
    exact ⟨.empty, by simp⟩
  | cons v vs ih =>
    obtain ⟨hraw, raw⟩ := List.forall_mem_cons.mp raw
    obtain ⟨hname, names⟩ := List.forall_mem_cons.mp names
    rw [Variable.encodeEach] at h
    cases he : v.encode with
    | error place =>
      rw [he] at h
      cases h
    | ok o =>
      rw [he] at h
      rcases Variable.encode_cases he with ⟨rfl, hw⟩ | ⟨l, hl, rfl, hw⟩
      · rw [List.filterMap_cons_none hw] at named ⊢
        exact ih raw names named h
      · rw [List.filterMap_cons_some hw] at named ⊢
        obtain ⟨hv, named⟩ := List.forall_mem_cons.mp named
        cases hrest : Variable.encodeEach vs with
        | error place =>
          rw [hrest] at h
          cases h
        | ok ls =>
          rw [hrest] at h
          cases h
          have hentry := Spells.entry hname (spells_ofValue hraw hv hl)
          exact ⟨hentry.join_cons (ih raw names named hrest).1, by simp⟩

/-- **The arguments of a call spell those that are written,** in parentheses if there are any. -/
theorem spells_encodeAll {vs : List Variable} {s : String}
    (raw : ∀ v ∈ vs, v.markers.raw = false) (names : ∀ v ∈ vs, isName v.argumentName)
    (named : ∀ e ∈ vs.filterMap Variable.written?, e.2.Named)
    (h : Variable.encodeAll vs = .ok s) :
    Spells s (Document.argumentLexemes (vs.filterMap Variable.written?)) ∧
      (s = "" ∧ vs.filterMap Variable.written? = [] ∨
        (∃ t, s = "(" ++ t) ∧ vs.filterMap Variable.written? ≠ []) := by
  unfold Variable.encodeAll at h
  cases he : Variable.encodeEach vs with
  | error place =>
    rw [he] at h
    cases h
  | ok ls =>
    rw [he] at h
    cases h
    obtain ⟨hspells, hempty⟩ := spells_encodeEach raw names named he
    cases ls with
    | nil =>
      rw [hempty.mp rfl]
      exact ⟨.empty, .inl ⟨rfl, rfl⟩⟩
    | cons l ls =>
      obtain ⟨e, es, hes⟩ := List.exists_cons_of_ne_nil (mt hempty.mpr (List.cons_ne_nil l ls))
      rw [hes] at hspells ⊢
      refine ⟨.enclosed rfl rfl (by decide) (by decide) hspells,
        .inr ⟨⟨Text.join ", " (l :: ls) ++ ")", ?_⟩, List.cons_ne_nil e es⟩⟩
      exact String.append_assoc

end GraphQLCall
