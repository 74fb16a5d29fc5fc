import GraphQLCall.Proofs.Response.Outcome
import GraphQLCall.Proofs.Types.Decode
import GraphQLCall.Proofs.Types.Described

/-!
# Types: the check and the decoder

Data is checked against the shape of a type before it is read as the type.  The two walk over the
data by themselves, the one along the shape and the other along the type, and they agree: data that
is read fits, and data that fits is refused only for what a shape does not say.

* `Catalogue.Leads`   the parts of data along a type
* `Catalogue.ArrayFree`   no array stands where the type has a record
* `Catalogue.Shortfall`   what a shape does not say: that null is not taken, that a field is
                          required, the range of an integer, the length of a character
* `Catalogue.fit_of_decode`   data that is read fits
* `Catalogue.shortfall_of_decode`   data that fits and is refused falls short
* `Catalogue.fit_decode_agree`   both, of a type and of the extraction of a result
-/

namespace GraphQLCall

namespace Catalogue

/-- **The parts of data along a type:** the steps lead from `j` to `j'`, and from its type to that of
the part. -/
inductive Leads (cat : Catalogue) : Ty → Json → List Step → Ty → Json → Prop
  | here (t : Ty) (j : Json) : Leads cat t j [] t j
  | item {t inner t' : Ty} {items : List Json} {i : Nat} {j j' : Json} {steps : List Step} :
      t.core = .list inner → items[i]? = some j → Leads cat inner j steps t' j' →
      Leads cat t (.arr items) (.index i :: steps) t' j'
  | entry {t t' : Ty} {name : String} {r : RecordDecl} {f : FieldDecl}
      {entries : List (String × Json)} {j j' : Json} {steps : List Step} :
      t.core = .declared name → cat.find? name = some (.record r) → f ∈ r.readFields →
      (f.key, j) ∈ entries → Leads cat f.type j steps t' j' →
      Leads cat t (.obj entries) (.key f.key :: steps) t' j'

/-- **No array stands where the type has a record.** -/
def ArrayFree (cat : Catalogue) (t : Ty) (j : Json) : Prop :=
  ∀ steps t' items name r, cat.Leads t j steps t' (.arr items) →
    t'.core = .declared name → cat.find? name ≠ some (.record r)

/-- **What a shape does not say of data:** why data that fits may be refused. -/
inductive Shortfall (cat : Catalogue) (t : Ty) : Json → Reason → Prop
  | null {wanted : Wanted} : t.nullable = false → t.core ≠ .json →
      Shortfall cat t .null (.wrongType .null wanted)
  | missing {name : String} {r : RecordDecl} {f : FieldDecl} {entries : List (String × Json)} :
      t.core = .declared name → cat.find? name = some (.record r) → f ∈ r.readFields →
      f.fallback = none → f.type.nullable = false → (∀ e ∈ entries, e.1 ≠ f.key) →
      Shortfall cat t (.obj entries) (.missingField f.key)
  | outOfRange {kind : IntKind} {n : Int} : t.core = .int kind →
      ¬(kind.least ≤ n ∧ n ≤ kind.greatest) →
      Shortfall cat t (.int n) (.wrongValue (.integer n) (.number kind.name))
  | notOneCharacter {s : String} : t.core = .char → s.length ≠ 1 →
      Shortfall cat t (.str s) (.wrongValue (.string s) .character)

variable {cat : Catalogue} {t : Ty} {j : Json} {d : Datum} {m : Mismatch}

theorem arrayFree_items_iff {inner : Ty} {items : List Json} (ht : t.core = .list inner) :
    cat.ArrayFree t (.arr items) ↔ ∀ j ∈ items, cat.ArrayFree inner j := by
  constructor
  · intro h j hj steps t' items' name r hl
    obtain ⟨i, hi⟩ := List.mem_iff_getElem?.mp hj
    exact h (.index i :: steps) t' items' name r (.item ht hi hl)
  · intro h steps t' items' name r hl hname
    cases hl with
    | here =>
      rw [ht] at hname
      cases hname
    | item ht' hi hl =>
      rw [ht] at ht'
      cases ht'
      exact h _ (List.mem_of_getElem? hi) _ _ _ _ _ hl hname

theorem arrayFree_entries_iff {name : String} {r : RecordDecl} {entries : List (String × Json)}
    (ht : t.core = .declared name) (hr : cat.find? name = some (.record r)) :
    cat.ArrayFree t (.obj entries) ↔
      ∀ f ∈ r.readFields, ∀ j, (f.key, j) ∈ entries → cat.ArrayFree f.type j := by
  constructor
  · exact fun h f hf j hj steps t' items' name' r' hl =>
      h (.key f.key :: steps) t' items' name' r' (.entry ht hr hf hj hl)
  · intro h steps t' items' name' r' hl
    cases hl with
    | entry ht' hr' hf hj hl =>
      rw [ht] at ht'
      cases ht'
      rw [hr] at hr'
      cases hr'
      exact h _ hf _ hj _ _ _ _ _ hl

theorem arrayFree_leaf (hitems : j.kind ≠ .list) (hentries : j.kind ≠ .object) :
    cat.ArrayFree t j := by
  intro steps t' items' name r hl
  cases hl with
  | here => exact absurd rfl hitems
  | item => exact absurd rfl hitems
  | entry => exact absurd rfl hentries

/-- **Data that is read fits.** -/
theorem fit_of_decode (closed : cat.Closed) (ht : t.Known cat) (hj : cat.ArrayFree t j)
    (h : cat.decode t j = .ok d) : (Shape.deferred t).fit cat j = .ok () := by
  induction j using Json.induction generalizing t d with
  | step j ih =>
    cases decode_ok ht h with
    | absent hnull => rw [hnull, Shape.fit]
    | scalar hs hread => exact (Ty.fit_iff_of_scalar hs).mpr (.inr (Ty.accepts_of_readScalar hs hread))
    | @list inner items ds hl hinner hitems hds =>
      subst hitems
      refine (Ty.fit_iff_of_list hl).mpr (.inr ⟨items, rfl, fun j hmem => ?_⟩)
      have hfree : cat.ArrayFree inner j := (arrayFree_items_iff hl).mp hj j hmem
      obtain ⟨i, hi, rfl⟩ := List.mem_iff_getElem.mp hmem
      have hi' : i < ds.length := hds.length_eq ▸ hi
      have hread : cat.decode inner items[i] = .ok ds[i] := hds.get hi hi'
      exact ih _ (.item hmem) hinner hfree hread
    | @record name r entries found hd hr hentries hfound =>
      subst hentries
      refine (Ty.fit_iff_of_record hd hr).mpr (.inr ⟨entries, rfl, ?_⟩)
      rintro ⟨key, j⟩ hmem f hf hname
      -- the check goes by the names of fields and the decoder by their keys, which agree
      have agrees := closed.agrees name r hr
      have hfield : r.fieldOf? key = some f := agrees.fieldOf?_eq_some_iff.mpr ⟨hf, hname⟩
      obtain ⟨d', hread⟩ := (decodeEntries_ok hfound).1 _ hmem f hfield
      obtain rfl : f.key = key := (agrees.key_eq f hf).trans hname
      have hfree : cat.ArrayFree f.type j := (arrayFree_entries_iff hd hr).mp hj f hf j hmem
      exact ih j (.entry hmem) (closed.known name r hr f hf) hfree hread
    | inOrder hd hr hitems =>
      -- the decoder would read the items as the fields in their order
      subst hitems
      exact absurd hr (hj [] t _ _ _ (.here t _) hd)

/-- **Data that fits and is refused falls short** where the decoder refuses it. -/
theorem shortfall_of_decode (closed : cat.Closed) (ht : t.Known cat)
    (hfit : (Shape.deferred t).fit cat j = .ok ()) (h : cat.decode t j = .error m) :
    ∃ t' j', cat.Leads t j m.steps t' j' ∧ cat.Shortfall t' j' m.reason := by
  induction j using Json.induction generalizing t m with
  | step j ih =>
    cases decode_error ht h with
    | scalar hs hread hnull =>
      -- null fits everywhere; other data that fits is of the kind of the type
      rcases (Ty.fit_iff_of_scalar hs).mp hfit with rfl | haccepts
      · obtain ⟨hjson, wanted, rfl⟩ := Ty.readScalar_null hs hread
        exact ⟨t, .null, .here t _, .null (hnull rfl) hjson⟩
      · obtain ⟨reason, rfl, hout⟩ := Ty.readScalar_error hs haccepts hread
        refine ⟨t, j, .here t j, ?_⟩
        cases hout with
        | integer hk hrange => exact .outOfRange hk hrange
        | text hc hlen => exact .notOneCharacter hc hlen
    | noItems hl hitems hnull hm =>
      rcases (Ty.fit_iff_of_list hl).mp hfit with rfl | ⟨items, rfl, -⟩
      · subst hm
        exact ⟨t, .null, .here t _, .null (hnull rfl) (by rw [hl]; exact nofun)⟩
      · exact absurd rfl (hitems items)
    | @item inner items i j' m' hl hinner hitems hi hm' hm =>
      subst hitems hm
      have hmem : j' ∈ items := List.mem_of_getElem? hi
      have hfit' : (Shape.deferred inner).fit cat j' = .ok () := Ty.fit_items hl hfit j' hmem
      obtain ⟨t', j'', hleads, hshort⟩ := ih j' (.item hmem) hinner hfit' hm'
      exact ⟨t', j'', .item hl hi hleads, hshort⟩
    | noEntries hd hr hitems hentries hnull hm =>
      rcases (Ty.fit_iff_of_record hd hr).mp hfit with rfl | ⟨entries, rfl, -⟩
      · subst hm
        exact ⟨t, .null, .here t _, .null (hnull rfl) (by rw [hd]; exact nofun)⟩
      · exact absurd rfl (hentries entries)
    | @entry name r entries f j' m' hd hr hentries hf hmem hm' hm =>
      subst hentries hm
      have hname : f.name = f.key := ((closed.agrees name r hr).key_eq f hf).symm
      have hfit' : (Shape.deferred f.type).fit cat j' = .ok () :=
        Ty.fit_entries hd hr hfit _ hmem f hf hname
      have hknown : f.type.Known cat := closed.known name r hr f hf
      obtain ⟨t', j'', hleads, hshort⟩ := ih j' (.entry hmem) hknown hfit' hm'
      exact ⟨t', j'', .entry hd hr hf hmem hleads, hshort⟩
    | @missing name r entries f hd hr hentries hf hnone hfallback hrequired hm =>
      subst hentries hm
      exact ⟨t, _, .here t _, .missing hd hr hf hfallback hrequired hnone⟩
    | inOrder hd hr hitems =>
      subst hitems
      exact absurd hfit (Ty.not_fit_items hd hr _)

/-- **The check and the decoder agree** on data in which no array stands for a record.  Data that is
read fits, and it is the result of an operation that has it; data that fits and is refused falls
short, where it is refused, of what a shape does not say. -/
theorem fit_decode_agree (closed : cat.Closed) (ht : t.Known cat) (hj : cat.ArrayFree t j) :
    (∀ d, cat.decode t j = .ok d → (t.shape cat).fit cat j = .ok () ∧
      ∀ (o : ExtractionOptions) (operation : String) (r : Response) (payload : Json),
        r.Holds o payload → payload.at? (o.responsePath ++ [operation]) = some j → j ≠ .null →
        r.extract cat o operation t = .ok (some d)) ∧
    ∀ m, (t.shape cat).fit cat j = .ok () → cat.decode t j = .error m →
      ∃ t' j', cat.Leads t j m.steps t' j' ∧ cat.Shortfall t' j' m.reason := by
  constructor
  · intro d hd
    have hfit : (t.shape cat).fit cat j = .ok () :=
      (Ty.fit_shape cat t j).trans (fit_of_decode closed ht hj hd)
    refine ⟨hfit, fun o operation r payload hholds hat hnull => ?_⟩
    have hjson : r.extractJson cat o operation (t.shape cat) = .ok (some j) :=
      Response.extractJson_some_iff.mpr ⟨payload, hholds, hat, hnull, hfit⟩
    exact Response.extract_eq_some_iff.mpr ⟨j, hjson, hd⟩
  · intro m hfit hm
    rw [Ty.fit_shape] at hfit
    exact shortfall_of_decode closed ht hfit hm

/-- a brewery with one beer, and a rank that is out of range -/
def breweryData : Json :=
  .obj [("beers", .arr [.obj [("brandName", .str "Pils"), ("brewedBy", .null)]]), ("rank", .int 300),
    ("type", .str "x")]

theorem arrayFree_breweryData : breweries.ArrayFree (.declared "Brewery") breweryData := by
  refine (arrayFree_entries_iff rfl rfl).mpr fun f hf j hj => ?_
  simp [breweryRecord, plainRecord, RecordDecl.readFields] at hf
  rcases hf with rfl | rfl | rfl <;> simp at hj <;> subst hj
  · exact arrayFree_leaf (by decide) (by decide)
  · exact arrayFree_leaf (by decide) (by decide)
  · refine (arrayFree_items_iff rfl).mpr (List.forall_mem_singleton.mpr ?_)
    refine (arrayFree_entries_iff rfl rfl).mpr fun f _ j hj => ?_
    simp only [List.mem_cons, Prod.mk.injEq, List.not_mem_nil, or_false] at hj
    rcases hj with ⟨-, rfl⟩ | ⟨-, rfl⟩
    · exact arrayFree_leaf (by decide) (by decide)
    · exact arrayFree_leaf (by decide) (by decide)

theorem breweries_fit_decode_agree :
    breweries.Closed ∧ (Ty.declared "Brewery").Known breweries ∧
    breweries.ArrayFree (.declared "Brewery") breweryData ∧
    (((Ty.declared "Brewery").shape breweries).fit breweries breweryData = .ok ()) ∧
    breweries.decode (.declared "Brewery") breweryData =
      .error ⟨[.key "rank"], .wrongValue (.integer 300) (.number "u8")⟩ ∧
    ∃ t' j', breweries.Leads (.declared "Brewery") breweryData [.key "rank"] t' j' ∧
      breweries.Shortfall t' j' (.wrongValue (.integer 300) (.number "u8")) := by
  have hfit : ((Ty.declared "Brewery").shape breweries).fit breweries breweryData = .ok () := by
    rw [Ty.fit_shape]
    simp [breweryData, Shape.fit, Shape.fitItems, Shape.fitEntries, Shape.fitLeaf, Shape.head, Ty.head,
      fields?_beer, fields?_brewery, Outcome.all, Ty.scalarKind, ScalarKind.accepts, Json.kind,
      Mismatch.within]
  have hdecode : breweries.decode (.declared "Brewery") breweryData =
      .error ⟨[.key "rank"], .wrongValue (.integer 300) (.number "u8")⟩ := by
    rfl
  have hknown : (Ty.declared "Brewery").Known breweries := ⟨breweryRecord, rfl⟩
  have hfree := arrayFree_breweryData
  exact ⟨breweries_closed, hknown, hfree, hfit, hdecode,
    (fit_decode_agree breweries_closed hknown hfree).2 _ hfit hdecode⟩

end Catalogue

end GraphQLCall
