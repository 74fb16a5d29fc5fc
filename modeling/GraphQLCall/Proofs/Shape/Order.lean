import GraphQLCall.Proofs.Entries
import GraphQLCall.Proofs.Shape.Fit

/-!
# Shapes: the order in which fields are given

An object puts its fields in order, and so do the objects that names stand for.  Where the fields
have different names nothing is left of the order in which they were given.

* `Shape.Rearranged`, `Declaration.Rearranged`, `Catalogue.Rearranged`   what differs in that order
                                                                        alone, at any depth
* `Shape.Rearranged.eq`   such shapes are the same
* `Catalogue.SameFields`   catalogues whose names stand for the same fields, as rearranged ones do
* `Shape.fit_sameFields`   the check of data looks at nothing else of a catalogue
* `Shape.fit_by_fields`   it takes the fields of an object in ascending order of name
-/

namespace GraphQLCall

/-! ### what is given in another order -/

/-- **Shapes that differ in the order in which fields are given:** those of one object, all with
different names, or those of an object that stands somewhere inside. -/
inductive Shape.Rearranged : Shape → Shape → Prop
  | same (s : Shape) : Rearranged s s
  | permuted {typeName : Option String} {fields fields' : List (String × Shape)} :
      (fields.map Prod.fst).Nodup → fields.Perm fields' →
      Rearranged (.record typeName fields) (.record typeName fields')
  | item {s s' : Shape} : Rearranged s s' → Rearranged (.list s) (.list s')
  | field {typeName : Option String} {before after : List (String × Shape)} {name : String}
      {s s' : Shape} : Rearranged s s' →
      Rearranged (.record typeName (before ++ (name, s) :: after))
        (.record typeName (before ++ (name, s') :: after))
  | trans {s t u : Shape} : Rearranged s t → Rearranged t u → Rearranged s u

/-- **Declarations that differ in the order in which fields are given.**  Fields that are not asked
for may have any names. -/
inductive Declaration.Rearranged : Declaration → Declaration → Prop
  | same (d : Declaration) : Rearranged d d
  | record {ident : String} {fields fields' : List FieldDecl} :
      ((fields.filter (·.inShape)).map (·.name)).Nodup → fields.Perm fields' →
      Rearranged (.record ⟨ident, fields⟩) (.record ⟨ident, fields'⟩)
  | object {fields fields' : List (String × Shape)} :
      (fields.map Prod.fst).Nodup → fields.Perm fields' →
      Rearranged (.object fields) (.object fields')
  | field {before after : List (String × Shape)} {name : String} {s s' : Shape} :
      s.Rearranged s' →
      Rearranged (.object (before ++ (name, s) :: after)) (.object (before ++ (name, s') :: after))
  | trans {d e f : Declaration} : Rearranged d e → Rearranged e f → Rearranged d f

/-- **Catalogues that differ in the order in which fields are given,** in any of their names. -/
def Catalogue.Rearranged (cat cat' : Catalogue) : Prop :=
  ∀ name, Option.Rel Declaration.Rearranged (cat.find? name) (cat'.find? name)

/-- **Shapes whose fields are given in another order** are the same. -/
theorem Shape.Rearranged.eq {s s' : Shape} (h : s.Rearranged s') : s = s' := by
  induction h with
  | same s => rfl
  | permuted hnodup hperm => rw [record, record, Entries.sort_congr hnodup hperm]
  | item _ ih => rw [ih]
  | field _ ih => rw [ih]
  | trans _ _ ih ih' => exact ih.trans ih'

/-! ### what names stand for -/

theorem RecordDecl.shape_congr {ident : String} {fields fields' : List FieldDecl}
    (h : ((fields.filter (·.inShape)).map (·.name)).Nodup) (hperm : fields.Perm fields') :
    (RecordDecl.mk ident fields).shape = (RecordDecl.mk ident fields').shape := by
  refine Entries.sort_congr ?_ ((hperm.filter _).map _)
  rw [List.map_map]
  exact h

namespace Declaration

/-- the fields of the object that a declaration stands for -/
def fields? : Declaration → Option (List (String × Shape))
  | .record decl => some (decl.shape.map fun f => (f.1, .deferred f.2))
  | .object fields => some (Entries.sort fields)
  | .choice _ => none

theorem Rearranged.fields?_eq {d d' : Declaration} (h : d.Rearranged d') :
    d.fields? = d'.fields? := by
  induction h with
  | same d => rfl
  | record hnodup hperm => rw [fields?, fields?, RecordDecl.shape_congr hnodup hperm]
  | object hnodup hperm => rw [fields?, fields?, Entries.sort_congr hnodup hperm]
  | field hs => rw [hs.eq]
  | trans _ _ ih ih' => exact ih.trans ih'

end Declaration

namespace Catalogue

/-- **Catalogues whose names stand for the same fields.** -/
def SameFields (cat cat' : Catalogue) : Prop := ∀ name, cat.fields? name = cat'.fields? name

theorem fields?_eq_bind (cat : Catalogue) (name : String) :
    cat.fields? name = (cat.find? name).bind Declaration.fields? := by
  unfold fields?
  cases cat.find? name with
  | none => rfl
  | some d => cases d <;> rfl

theorem Rearranged.sameFields {cat cat' : Catalogue} (h : cat.Rearranged cat') :
    cat.SameFields cat' := by
  intro name
  have hname := h name
  rw [fields?_eq_bind, fields?_eq_bind]
  generalize cat.find? name = d at hname ⊢
  generalize cat'.find? name = d' at hname ⊢
  cases hname with
  | none => rfl
  | some hd => exact hd.fields?_eq

end Catalogue

/-! ### shapes under catalogues whose names stand for the same fields -/

section
variable {cat cat' : Catalogue} (h : cat.SameFields cat')
include h

theorem Ty.head_sameFields (t : Ty) : t.head cat = t.head cat' := by
  induction t with
  | option inner ih => exact ih
  | boxed inner ih => exact ih
  | declared name => rw [head, head, h name]
  | _ => rfl

namespace Shape

theorem head_sameFields (s : Shape) : s.head cat = s.head cat' := by
  cases s with
  | deferred t => exact t.head_sameFields h
  | _ => rfl

theorem innermost_sameFields (s : Shape) : s.innermost cat = s.innermost cat' := by
  induction s using Shape.innermost.induct with
  | case1 kind => rfl
  | case2 inner ih => exact ih
  | case3 typeName fields => rfl
  | case4 t => exact t.innermost.head_sameFields h

theorem isStructured_sameFields (s : Shape) : s.isStructured cat = s.isStructured cat' := by
  rw [isStructured, isStructured, innermost_sameFields h]

omit h in
theorem fitItems_congr {items : List Json} (hitems : ∀ j ∈ items, ∀ s : Shape,
    s.fit cat j = s.fit cat' j) (s : Shape) (i : Nat) :
    fitItems cat s i items = fitItems cat' s i items := by
  induction items generalizing i with
  | nil => rw [fitItems, fitItems]
  | cons j rest ih =>
    obtain ⟨hj, hrest⟩ := List.forall_mem_cons.mp hitems
    rw [fitItems, fitItems, hj s, ih hrest]

omit h in
theorem fitEntries_congr {entries : List (String × Json)} (hentries : ∀ e ∈ entries,
    ∀ s : Shape, s.fit cat e.2 = s.fit cat' e.2) (fields : List (String × Shape)) :
    fitEntries cat fields entries = fitEntries cat' fields entries := by
  induction entries with
  | nil => rw [fitEntries, fitEntries]
  | cons entry rest ih =>
    obtain ⟨key, j⟩ := entry
    obtain ⟨hj, hrest⟩ := List.forall_mem_cons.mp hentries
    have hfields : (fun f : String × Shape => f.2.fit cat j) = fun f => f.2.fit cat' j :=
      funext fun f => hj f.2
    rw [fitEntries, fitEntries, hfields, ih hrest]

/-- **The check of data** looks at nothing of a catalogue but at the fields that names stand for. -/
theorem fit_sameFields (j : Json) (s : Shape) : s.fit cat j = s.fit cat' j := by
  induction j using Json.induction generalizing s with
  | step j ih =>
    cases j with
    | arr items =>
      have hitems (i : Nat) (inner : Shape) :
          fitItems cat inner i items = fitItems cat' inner i items :=
        fitItems_congr (fun j hj s => ih j (.item hj) s) inner i
      simp only [fit, head_sameFields h, hitems]
    | obj entries =>
      have hentries (fields : List (String × Shape)) :
          fitEntries cat fields entries = fitEntries cat' fields entries :=
        fitEntries_congr (fun e he s => ih e.2 (.entry he) s) fields
      simp only [fit, head_sameFields h, hentries]
    | _ => simp only [fit, head_sameFields h]

end Shape

end

/-! ### the fields of an object one by one -/

namespace Shape

variable {cat : Catalogue}

/-- what the entries of an object say of one field -/
def fitField (cat : Catalogue) (entries : List (String × Json)) (f : String × Shape) :
    Except Mismatch Unit :=
  match Entries.find? f.1 entries with
  | none => .ok ()
  | some j => Mismatch.within (.key f.1) (f.2.fit cat j)

theorem fitEntries_eq_all {fields : List (String × Shape)} {entries : List (String × Json)}
    (hfields : Entries.Ascending fields) (hentries : Entries.Strict entries) :
    fitEntries cat fields entries = Outcome.all (fitField cat entries) fields := by
  induction entries with
  | nil =>
    rw [fitEntries]
    exact (Outcome.all_eq_ok_iff.mpr fun f _ => rfl).symm
  | cons entry rest ih =>
    obtain ⟨key, j⟩ := entry
    obtain ⟨hkey, hrest⟩ := List.pairwise_cons.mp hentries
    have habsent {name : String} (h : ¬ key < name) : Entries.find? name rest = none := by
      refine Entries.find?_eq_none_iff.mpr fun e he heq => h ?_
      rw [← heq]
      exact hkey e he
    -- below the key there is no data, at the key there is `j`, and above it what is behind `j`
    have hbelow : ∀ f ∈ fields.filter (fun f => f.1 < key),
        fitField cat ((key, j) :: rest) f = .ok () ∧ fitField cat rest f = .ok () := by
      intro f hf
      have hlt : f.1 < key := of_decide_eq_true (List.mem_filter.mp hf).2
      have hnone := habsent (lt_asymm hlt)
      unfold fitField
      rw [Entries.find?, if_neg (ne_of_gt hlt), hnone]
      exact ⟨rfl, rfl⟩
    have hat : ∀ f ∈ fields.filter (fun f => f.1 = key),
        fitField cat ((key, j) :: rest) f = Mismatch.within (.key key) (f.2.fit cat j) ∧
          fitField cat rest f = .ok () := by
      intro f hf
      have heq : f.1 = key := of_decide_eq_true (List.mem_filter.mp hf).2
      have hnone : Entries.find? f.1 rest = none := habsent (heq ▸ lt_irrefl f.1)
      unfold fitField
      rw [Entries.find?, if_pos heq.symm, hnone, heq]
      exact ⟨rfl, rfl⟩
    have habove : ∀ f ∈ fields.filter (fun f => key < f.1),
        fitField cat ((key, j) :: rest) f = fitField cat rest f := by
      intro f hf
      have hlt : key < f.1 := of_decide_eq_true (List.mem_filter.mp hf).2
      unfold fitField
      rw [Entries.find?, if_neg (ne_of_lt hlt)]
    have hbehind : Outcome.all (fitField cat rest) fields =
        Outcome.all (fitField cat rest) (fields.filter fun f => key < f.1) := by
      conv_lhs => rw [hfields.split key]
      rw [Outcome.all_append, Outcome.all_append,
        Outcome.all_eq_ok_iff.mpr fun f hf => (hbelow f hf).2,
        Outcome.all_eq_ok_iff.mpr fun f hf => (hat f hf).2]
      rfl
    have hwhole : Outcome.all (fitField cat ((key, j) :: rest)) fields =
        (Mismatch.within (.key key)
          (Outcome.all (fun f => f.2.fit cat j) (fields.filter fun f => f.1 = key))).bind
            fun _ => Outcome.all (fitField cat rest) fields := by
      conv_lhs => rw [hfields.split key]
      rw [Outcome.all_append, Outcome.all_append,
        Outcome.all_eq_ok_iff.mpr fun f hf => (hbelow f hf).1,
        Outcome.all_congr fun f hf => (hat f hf).1, ← Mismatch.within_all, Outcome.all_congr habove,
        ← hbehind]
      rfl
    rw [fitEntries, hwhole, ih hrest]
    cases Mismatch.within (.key key)
        (Outcome.all (fun f => f.2.fit cat j) (fields.filter fun f => f.1 = key)) with
    | error m => rfl
    | ok u => rfl

/-- **The check of an object** takes its fields in ascending order of name. -/
theorem fit_by_fields {s : Shape} {typeName : Option String} {fields : List (String × Shape)}
    {entries : List (String × Json)} (h : s.head cat = .object typeName fields)
    (hfields : Entries.Ascending fields) (hentries : Entries.Strict entries) :
    s.fit cat (.obj entries) = Outcome.all (fitField cat entries) fields := by
  rw [fit, h]
  exact fitEntries_eq_all hfields hentries

end Shape

end GraphQLCall
