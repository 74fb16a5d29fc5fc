import GraphQLCall.Proofs.Outcome
import GraphQLCall.Proofs.Shape.Fit
import GraphQLCall.Proofs.Types.Family

/-!
# Types: what reading data says

Data of a known type is read by what the type is without its wrappers, and what was read, or why it
was not, says what the data is and what became of its parts.

* `Ty.fit_iff_of_scalar`, `Ty.fit_iff_of_list`, `Ty.fit_iff_of_record`   data that fits a type
* `Ty.fit_items`, `Ty.fit_entries`   parts of data that fits
* `Ty.accepts_of_readScalar`, `Ty.readScalar_null`, `Ty.readScalar_error`   data without parts
* `Catalogue.decodeItems_ok`, `Catalogue.decodeEntries_ok`, `RecordDecl.assemble_ok`   parts read
* `Catalogue.decodeItems_error`, `Catalogue.decodeEntries_error`, `RecordDecl.assemble_error`   a
  part that was not read
* `Catalogue.Reading`, `Catalogue.reading`   how data is read
* `Catalogue.Decoded`, `Catalogue.decode_ok`   data that was read
* `Catalogue.Refused`, `Catalogue.decode_error`   data that was refused
-/

namespace GraphQLCall

/-! ### data that fits a type -/

namespace Ty

variable {cat : Catalogue} {t : Ty} {j : Json}

/-- the shape of a type, whether it is looked up or not -/
theorem fit_shape (cat : Catalogue) (t : Ty) (j : Json) :
    (t.shape cat).fit cat j = (Shape.deferred t).fit cat j :=
  Shape.fit_congr (t.head_shape cat) j

theorem fit_iff_of_scalar (ht : t.core.isScalar = true) :
    (Shape.deferred t).fit cat j = .ok () ↔ j = .null ∨ t.core.scalarKind.accepts j = true :=
  Shape.fit_scalar_iff (s := .deferred t) (head_of_scalar ht)

theorem fit_iff_of_list {inner : Ty} (ht : t.core = .list inner) :
    (Shape.deferred t).fit cat j = .ok () ↔
      j = .null ∨ ∃ items, j = .arr items ∧ ∀ i ∈ items, (Shape.deferred inner).fit cat i = .ok () :=
  Shape.fit_list_iff (s := .deferred t) (head_of_list ht)

theorem fit_iff_of_record {name : String} {r : RecordDecl} (ht : t.core = .declared name)
    (hr : cat.find? name = some (.record r)) :
    (Shape.deferred t).fit cat j = .ok () ↔ j = .null ∨ ∃ entries, j = .obj entries ∧
      ∀ e ∈ entries, ∀ f ∈ r.readFields, f.name = e.1 →
        (Shape.deferred f.type).fit cat e.2 = .ok () := by
  rw [Shape.fit_object_iff (s := .deferred t) (head_of_record ht hr)]
  refine or_congr_right (exists_congr fun entries => and_congr_right fun _ =>
    forall₂_congr fun e _ => ⟨fun h f hf hname => ?_, fun h s hs hname => ?_⟩)
  · exact h (f.name, .deferred f.type) (RecordDecl.mem_shape.mpr ⟨f, hf, rfl, rfl⟩) hname
  · obtain ⟨f, hf, hfname, heq⟩ := RecordDecl.mem_shape.mp hs
    rw [heq]
    exact h f hf (hfname.trans hname)

theorem fit_items {inner : Ty} {items : List Json} (ht : t.core = .list inner)
    (h : (Shape.deferred t).fit cat (.arr items) = .ok ()) :
    ∀ i ∈ items, (Shape.deferred inner).fit cat i = .ok () := by
  rcases (fit_iff_of_list ht).mp h with hnull | ⟨items', hitems, hall⟩
  · cases hnull
  · cases hitems
    exact hall

theorem fit_entries {name : String} {r : RecordDecl} {entries : List (String × Json)}
    (ht : t.core = .declared name) (hr : cat.find? name = some (.record r))
    (h : (Shape.deferred t).fit cat (.obj entries) = .ok ()) :
    ∀ e ∈ entries, ∀ f ∈ r.readFields, f.name = e.1 →
      (Shape.deferred f.type).fit cat e.2 = .ok () := by
  rcases (fit_iff_of_record ht hr).mp h with hnull | ⟨entries', hentries, hall⟩
  · cases hnull
  · cases hentries
    exact hall

theorem not_fit_items {name : String} {r : RecordDecl} (ht : t.core = .declared name)
    (hr : cat.find? name = some (.record r)) (items : List Json) :
    (Shape.deferred t).fit cat (.arr items) ≠ .ok () := by
  intro h
  rcases (fit_iff_of_record ht hr).mp h with hnull | ⟨entries, hentries, -⟩
  · cases hnull
  · cases hentries

end Ty

/-! ### data without parts -/

namespace Ty

variable {t : Ty} {j : Json} {d : Datum} {m : Mismatch}

/-- **Data that is read as a type without parts** is of the type's kind. -/
theorem accepts_of_readScalar (ht : t.isScalar = true) (h : t.readScalar j = .ok d) :
    t.scalarKind.accepts j = true := by
  -- each pair of a type and a kind of data is either accepted or refused
  cases t <;> cases j <;> first | rfl | (cases ht; done) | cases h

/-- why data of a type's kind may not be data of the type: an integer that is out of range, or a text
that is not one character -/
inductive OutOfType (t : Ty) : Json → Reason → Prop
  | integer {kind : IntKind} {n : Int} : t = .int kind → ¬(kind.least ≤ n ∧ n ≤ kind.greatest) →
      OutOfType t (.int n) (.wrongValue (.integer n) (.number kind.name))
  | text {s : String} : t = .char → s.length ≠ 1 →
      OutOfType t (.str s) (.wrongValue (.string s) .character)

/-- **Null that is not read** as a type without parts is of the wrong type. -/
theorem readScalar_null (ht : t.isScalar = true) (h : t.readScalar .null = .error m) :
    t ≠ .json ∧ ∃ wanted, m = .here (.wrongType .null wanted) := by
  cases t <;> cases ht <;> cases h <;> exact ⟨nofun, _, rfl⟩

/-- **Data of a type's kind that is not read** is out of the type. -/
theorem readScalar_error (ht : t.isScalar = true) (hj : t.scalarKind.accepts j = true)
    (h : t.readScalar j = .error m) : ∃ reason, m = .here reason ∧ t.OutOfType j reason := by
  cases t with
  | int kind =>
    cases j with
    | int n =>
      simp only [readScalar, IntKind.read] at h
      split at h
      · cases h
      · rename_i hrange
        cases h
        exact ⟨_, rfl, .integer rfl (by simpa [IntKind.holds] using hrange)⟩
    | _ => cases hj
  | char =>
    cases j with
    | str s =>
      simp only [readScalar] at h
      split at h
      · cases h
      · rename_i hone
        cases h
        refine ⟨_, rfl, .text rfl fun hlen => ?_⟩
        obtain ⟨c, hc⟩ := List.length_eq_one_iff.mp hlen
        exact hone c hc
    | _ => cases hj
  | _ => cases j <;> first | (cases ht; done) | (cases hj; done) | cases h

end Ty

/-! ### the fields of a record -/

theorem FieldDecl.missing_error {f : FieldDecl} {m : Mismatch} (h : f.missing = .error m) :
    f.fallback = none ∧ f.type.nullable = false ∧ m = .here (.missingField f.key) := by
  unfold missing at h
  split at h
  · cases h
  · rename_i hfallback
    split at h
    · cases h
    · rename_i hnull
      cases h
      exact ⟨hfallback, Bool.eq_false_of_not_eq_true hnull, rfl⟩

namespace RecordDecl

variable {r : RecordDecl} {found : List (String × Datum)} {d : Datum} {m : Mismatch}

/-- the data of a field, of the data that was read under the keys -/
def datumOf (found : List (String × Datum)) (f : FieldDecl) : Except Mismatch Datum :=
  if f.inShape then
    match Entries.find? f.key found with
    | some d => .ok d
    | none => f.missing
  else .ok (f.fallback.getD .absent)

theorem assemble_eq (r : RecordDecl) (found : List (String × Datum)) :
    r.assemble found = (Outcome.each (fun f => (datumOf found f).map fun d => (f.name, f.inValue, d))
      r.fields).map .record := by
  refine congrArg (Except.map _) (congrArg (Outcome.each · r.fields) (funext fun f => ?_))
  unfold datumOf
  split
  · cases Entries.find? f.key found <;> rfl
  · rfl

/-- **A record that was put together** has the data of each field. -/
theorem assemble_ok (h : r.assemble found = .ok d) : ∃ fields, d = .record fields ∧
    List.Forall₂ (fun f e => ∃ d', datumOf found f = .ok d' ∧ e = (f.name, f.inValue, d'))
      r.fields fields := by
  rw [assemble_eq] at h
  obtain ⟨fields, heach, rfl⟩ := Outcome.map_eq_ok_iff.mp h
  exact ⟨fields, rfl, (Outcome.each_ok heach).imp fun f e he => Outcome.map_eq_ok_iff.mp he⟩

/-- **A record that was not put together** lacks a field that has no fallback. -/
theorem assemble_error (h : r.assemble found = .error m) : ∃ f ∈ r.readFields,
    Entries.find? f.key found = none ∧ f.fallback = none ∧ f.type.nullable = false ∧
      m = .here (.missingField f.key) := by
  rw [assemble_eq] at h
  obtain ⟨f, hf, hfail⟩ := Outcome.each_error (Outcome.map_eq_error_iff.mp h)
  have hd := Outcome.map_eq_error_iff.mp hfail
  unfold datumOf at hd
  split at hd
  · rename_i hshape
    split at hd
    · cases hd
    · rename_i hnone
      obtain ⟨hfallback, hnull, hm⟩ := FieldDecl.missing_error hd
      exact ⟨f, mem_readFields.mpr ⟨hf, hshape⟩, hnone, hfallback, hnull, hm⟩
  · cases hd

end RecordDecl

/-! ### parts -/

namespace Catalogue

variable {cat : Catalogue} {t : Ty} {j : Json} {r : RecordDecl} {m : Mismatch}

theorem decodeItems_ok {i : Nat} {items : List Json} {ds : List Datum}
    (h : decodeItems cat t i items = .ok ds) :
    List.Forall₂ (fun j d => cat.decode t j = .ok d) items ds := by
  induction items generalizing i ds with
  | nil =>
    rw [decodeItems] at h
    cases h
    exact .nil
  | cons j rest ih =>
    rw [decodeItems] at h
    split at h
    · cases h
    · rename_i d hd
      obtain ⟨ds', hrest, rfl⟩ := Outcome.map_eq_ok_iff.mp h
      exact .cons (Mismatch.within_eq_ok_iff.mp hd) (ih hrest)

theorem decodeItems_error {i : Nat} {items : List Json} (h : decodeItems cat t i items = .error m) :
    ∃ k j m', items[k]? = some j ∧ cat.decode t j = .error m' ∧
      m = m'.behind (.index (i + k)) := by
  induction items generalizing i with
  | nil =>
    rw [decodeItems] at h
    cases h
  | cons j rest ih =>
    rw [decodeItems] at h
    split at h
    · rename_i hj
      cases h
      obtain ⟨m', hm', hm⟩ := Mismatch.within_eq_error_iff.mp hj
      exact ⟨0, j, m', rfl, hm', hm⟩
    · obtain ⟨k, j', m', hk, hm', hm⟩ := ih (Outcome.map_eq_error_iff.mp h)
      refine ⟨k + 1, j', m', hk, hm', ?_⟩
      rw [hm, Nat.add_right_comm, Nat.add_assoc]

/-- **The entries that are fields are all read,** and each key finds what its first entry was read
as. -/
theorem decodeEntries_ok {entries : List (String × Json)} {found : List (String × Datum)}
    (h : decodeEntries cat r entries = .ok found) :
    (∀ e ∈ entries, ∀ f, r.fieldOf? e.1 = some f → ∃ d, cat.decode f.type e.2 = .ok d) ∧
    ∀ key f, r.fieldOf? key = some f →
      match Entries.find? key entries with
      | none => Entries.find? key found = none
      | some j => ∃ d, Entries.find? key found = some d ∧ cat.decode f.type j = .ok d := by
  induction entries generalizing found with
  | nil =>
    rw [decodeEntries] at h
    cases h
    exact ⟨fun e he => absurd he List.not_mem_nil, fun key f _ => rfl⟩
  | cons entry rest ih =>
    obtain ⟨k, j⟩ := entry
    rw [decodeEntries] at h
    split at h
    · rename_i hk
      obtain ⟨hall, hfind⟩ := ih h
      refine ⟨List.forall_mem_cons.mpr ⟨fun f hf => ?_, hall⟩, fun key f hf => ?_⟩
      · rw [hk] at hf
        cases hf
      · rw [Entries.find?, if_neg]
        · exact hfind key f hf
        · rintro rfl
          rw [hk] at hf
          cases hf
    · rename_i g hg
      split at h
      · cases h
      · rename_i d hd
        obtain ⟨found', hrest, rfl⟩ := Outcome.map_eq_ok_iff.mp h
        obtain ⟨hall, hfind⟩ := ih hrest
        have hd := Mismatch.within_eq_ok_iff.mp hd
        refine ⟨List.forall_mem_cons.mpr ⟨fun f hf => ?_, hall⟩, fun key f hf => ?_⟩
        · rw [hg] at hf
          cases hf
          exact ⟨d, hd⟩
        · rw [Entries.find?, Entries.find?]
          by_cases hkey : k = key
          · subst hkey
            rw [hg] at hf
            cases hf
            rw [if_pos rfl, if_pos rfl]
            exact ⟨d, rfl, hd⟩
          · rw [if_neg hkey, if_neg hkey]
            exact hfind key f hf

theorem decodeEntries_error {entries : List (String × Json)}
    (h : decodeEntries cat r entries = .error m) :
    ∃ e ∈ entries, ∃ f m', r.fieldOf? e.1 = some f ∧ cat.decode f.type e.2 = .error m' ∧
      m = m'.behind (.key e.1) := by
  induction entries with
  | nil =>
    rw [decodeEntries] at h
    cases h
  | cons entry rest ih =>
    obtain ⟨k, j⟩ := entry
    have hrest (h : decodeEntries cat r rest = .error m) :=
      (ih h).imp fun e he => And.imp_left (List.mem_cons_of_mem (k, j)) he
    rw [decodeEntries] at h
    split at h
    · exact hrest h
    · rename_i f hf
      split at h
      · rename_i hj
        cases h
        obtain ⟨m', hm', hm⟩ := Mismatch.within_eq_error_iff.mp hj
        exact ⟨(k, j), List.mem_cons_self, f, m', hf, hm', hm⟩
      · exact hrest (Outcome.map_eq_error_iff.mp h)

/-! ### wholes -/

theorem decode_null (h : t.nullable = true) : cat.decode t .null = .ok .absent := by
  rw [decode, if_pos h]

theorem decode_scalar (ht : t.core.isScalar = true) (hj : j = .null → t.nullable = false) :
    cat.decode t j = t.core.readScalar j := by
  cases j
  case null =>
    rw [decode, hj rfl, if_neg Bool.false_ne_true]
    generalize t.core = c at ht
    cases c <;> first | rfl | cases ht
  all_goals
    simp only [decode]
    generalize t.core = c at ht
    cases c <;> first | rfl | cases ht

theorem decode_items {inner : Ty} (ht : t.core = .list inner) (items : List Json) :
    cat.decode t (.arr items) = (decodeItems cat inner 0 items).map .list := by
  simp only [decode, ht]

theorem decode_no_items {inner : Ty} (ht : t.core = .list inner) (hj : ∀ items, j ≠ .arr items)
    (hnull : j = .null → t.nullable = false) : cat.decode t j = refused j .sequence := by
  cases j
  case null => rw [decode, hnull rfl, if_neg Bool.false_ne_true, ht]
  case arr items => exact absurd rfl (hj items)
  all_goals simp only [decode, ht]

theorem decode_entries {name : String} (ht : t.core = .declared name)
    (hr : cat.find? name = some (.record r)) (entries : List (String × Json)) :
    cat.decode t (.obj entries) =
      match decodeEntries cat r entries with
      | .error m => .error m
      | .ok found => r.assemble found := by
  cases hfound : decodeEntries cat r entries <;> simp only [decode, ht, hr, hfound]

theorem decode_no_entries {name : String} (ht : t.core = .declared name)
    (hr : cat.find? name = some (.record r)) (hitems : ∀ items, j ≠ .arr items)
    (hentries : ∀ entries, j ≠ .obj entries) (hnull : j = .null → t.nullable = false) :
    cat.decode t j = refused j (.struct r.ident) := by
  cases j
  case null => simp [decode, hnull rfl, ht, hr]
  case arr items => exact absurd rfl (hitems items)
  case obj entries => exact absurd rfl (hentries entries)
  all_goals simp only [decode, ht, hr]

/-- **How data is read,** as a known type. -/
inductive Reading (cat : Catalogue) (t : Ty) (j : Json) : Prop
  | absent : j = .null → t.nullable = true → cat.decode t j = .ok .absent → Reading cat t j
  | scalar : t.core.isScalar = true → (j = .null → t.nullable = false) →
      cat.decode t j = t.core.readScalar j → Reading cat t j
  | items {inner : Ty} {items : List Json} : t.core = .list inner → inner.Known cat →
      j = .arr items → cat.decode t j = (decodeItems cat inner 0 items).map .list → Reading cat t j
  | noItems {inner : Ty} : t.core = .list inner → (∀ items, j ≠ .arr items) →
      (j = .null → t.nullable = false) → cat.decode t j = refused j .sequence → Reading cat t j
  | entries {name : String} {r : RecordDecl} {entries : List (String × Json)} :
      t.core = .declared name → cat.find? name = some (.record r) → j = .obj entries →
      (cat.decode t j = match decodeEntries cat r entries with
        | .error m => .error m
        | .ok found => r.assemble found) → Reading cat t j
  | noEntries {name : String} {r : RecordDecl} :
      t.core = .declared name → cat.find? name = some (.record r) → (∀ items, j ≠ .arr items) →
      (∀ entries, j ≠ .obj entries) → (j = .null → t.nullable = false) →
      cat.decode t j = refused j (.struct r.ident) → Reading cat t j
  | inOrder {name : String} {r : RecordDecl} {items : List Json} :
      t.core = .declared name → cat.find? name = some (.record r) → j = .arr items →
      Reading cat t j

theorem reading (ht : t.Known cat) (j : Json) : Reading cat t j := by
  by_cases habsent : j = .null ∧ t.nullable = true
  · obtain ⟨rfl, hnull⟩ := habsent
    exact .absent rfl hnull (decode_null hnull)
  have hnull (hj : j = .null) : t.nullable = false :=
    Bool.eq_false_of_not_eq_true fun hn => habsent ⟨hj, hn⟩
  cases ht.form with
  | scalar hs => exact .scalar hs hnull (decode_scalar hs hnull)
  | list hl hinner =>
    by_cases hitems : ∃ items, j = .arr items
    · obtain ⟨items, rfl⟩ := hitems
      exact .items hl hinner rfl (decode_items hl items)
    · have hno := not_exists.mp hitems
      exact .noItems hl hno hnull (decode_no_items hl hno hnull)
  | record hd hr =>
    by_cases hitems : ∃ items, j = .arr items
    · obtain ⟨items, rfl⟩ := hitems
      exact .inOrder hd hr rfl
    by_cases hentries : ∃ entries, j = .obj entries
    · obtain ⟨entries, rfl⟩ := hentries
      exact .entries hd hr rfl (decode_entries hd hr entries)
    · have hno := not_exists.mp hitems
      have hno' := not_exists.mp hentries
      exact .noEntries hd hr hno hno' hnull (decode_no_entries hd hr hno hno' hnull)

/-- **Data that was read,** as a known type. -/
inductive Decoded (cat : Catalogue) (t : Ty) (j : Json) (d : Datum) : Prop
  | absent : j = .null → t.nullable = true → d = .absent → Decoded cat t j d
  | scalar : t.core.isScalar = true → t.core.readScalar j = .ok d → Decoded cat t j d
  | list {inner : Ty} {items : List Json} {ds : List Datum} :
      t.core = .list inner → inner.Known cat → j = .arr items →
      List.Forall₂ (fun j d => cat.decode inner j = .ok d) items ds → d = .list ds →
      Decoded cat t j d
  | record {name : String} {r : RecordDecl} {entries : List (String × Json)}
      {found : List (String × Datum)} :
      t.core = .declared name → cat.find? name = some (.record r) → j = .obj entries →
      decodeEntries cat r entries = .ok found → r.assemble found = .ok d → Decoded cat t j d
  | inOrder {name : String} {r : RecordDecl} {items : List Json} :
      t.core = .declared name → cat.find? name = some (.record r) → j = .arr items →
      Decoded cat t j d

theorem decode_ok (ht : t.Known cat) {d : Datum} (h : cat.decode t j = .ok d) :
    Decoded cat t j d := by
  cases reading ht j with
  | absent hj hnull hd =>
    rw [hd] at h
    cases h
    exact .absent hj hnull rfl
  | scalar hs _ hd => exact .scalar hs (hd ▸ h)
  | items hl hinner hj hd =>
    rw [hd] at h
    obtain ⟨ds, hds, rfl⟩ := Outcome.map_eq_ok_iff.mp h
    exact .list hl hinner hj (decodeItems_ok hds) rfl
  | noItems _ _ _ hd =>
    rw [hd] at h
    cases h
  | entries hd hr hj hdecode =>
    rw [hdecode] at h
    split at h
    · cases h
    · exact .record hd hr hj ‹_› h
  | noEntries _ _ _ _ _ hd =>
    rw [hd] at h
    cases h
  | inOrder hd hr hj => exact .inOrder hd hr hj

/-- **Data that was refused,** as a known type. -/
inductive Refused (cat : Catalogue) (t : Ty) (j : Json) (m : Mismatch) : Prop
  | scalar : t.core.isScalar = true → t.core.readScalar j = .error m →
      (j = .null → t.nullable = false) → Refused cat t j m
  | noItems {inner : Ty} : t.core = .list inner → (∀ items, j ≠ .arr items) →
      (j = .null → t.nullable = false) → m = .here (.wrongType (.ofJson j) .sequence) →
      Refused cat t j m
  | item {inner : Ty} {items : List Json} {i : Nat} {j' : Json} {m' : Mismatch} :
      t.core = .list inner → inner.Known cat → j = .arr items → items[i]? = some j' →
      cat.decode inner j' = .error m' → m = m'.behind (.index i) → Refused cat t j m
  | noEntries {name : String} {r : RecordDecl} :
      t.core = .declared name → cat.find? name = some (.record r) → (∀ items, j ≠ .arr items) →
      (∀ entries, j ≠ .obj entries) → (j = .null → t.nullable = false) →
      m = .here (.wrongType (.ofJson j) (.struct r.ident)) → Refused cat t j m
  | entry {name : String} {r : RecordDecl} {entries : List (String × Json)} {f : FieldDecl}
      {j' : Json} {m' : Mismatch} :
      t.core = .declared name → cat.find? name = some (.record r) → j = .obj entries →
      f ∈ r.readFields → (f.key, j') ∈ entries → cat.decode f.type j' = .error m' →
      m = m'.behind (.key f.key) → Refused cat t j m
  | missing {name : String} {r : RecordDecl} {entries : List (String × Json)} {f : FieldDecl} :
      t.core = .declared name → cat.find? name = some (.record r) → j = .obj entries →
      f ∈ r.readFields → (∀ e ∈ entries, e.1 ≠ f.key) → f.fallback = none →
      f.type.nullable = false → m = .here (.missingField f.key) → Refused cat t j m
  | inOrder {name : String} {r : RecordDecl} {items : List Json} :
      t.core = .declared name → cat.find? name = some (.record r) → j = .arr items →
      Refused cat t j m

theorem decode_error (ht : t.Known cat) (h : cat.decode t j = .error m) : Refused cat t j m := by
  cases reading ht j with
  | absent _ _ hd =>
    rw [hd] at h
    cases h
  | scalar hs hnull hd => exact .scalar hs (hd ▸ h) hnull
  | items hl hinner hj hd =>
    rw [hd] at h
    obtain ⟨i, j', m', hi, hm', hm⟩ := decodeItems_error (Outcome.map_eq_error_iff.mp h)
    rw [Nat.zero_add] at hm
    exact .item hl hinner hj hi hm' hm
  | noItems hl hno hnull hd =>
    rw [hd] at h
    cases h
    exact .noItems hl hno hnull rfl
  | @entries name r entries hd hr hj hdecode =>
    rw [hdecode] at h
    split at h
    · cases h
      obtain ⟨⟨k, j'⟩, he, f, m', hf, hm', hm⟩ := decodeEntries_error ‹_›
      obtain ⟨hmem, rfl⟩ := RecordDecl.fieldOf?_some hf
      exact .entry hd hr hj hmem he hm' hm
    · rename_i found hfound
      obtain ⟨f, hf, hnone, hfallback, hrequired, hm⟩ := RecordDecl.assemble_error h
      refine .missing hd hr hj hf ?_ hfallback hrequired hm
      obtain ⟨g, hg⟩ := RecordDecl.exists_fieldOf? hf
      have hfind := (decodeEntries_ok hfound).2 f.key g hg
      split at hfind
      · rename_i habsent
        exact Entries.find?_eq_none_iff.mp habsent
      · obtain ⟨d, hsome, -⟩ := hfind
        rw [hnone] at hsome
        cases hsome
  | noEntries hd hr hno hno' hnull hdecode =>
    rw [hdecode] at h
    cases h
    exact .noEntries hd hr hno hno' hnull rfl
  | inOrder hd hr hj => exact .inOrder hd hr hj

end Catalogue

end GraphQLCall
