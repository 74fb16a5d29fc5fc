import GraphQLCall.Proofs.Response.Outcome
import GraphQLCall.Proofs.Types.Decode
import GraphQLCall.Proofs.Types.Described

/-!
# Types: a result as a value

A result that was read as a type and is sent again is what the response had of it: its items in
order, of its objects the entries that the type asks for, and nothing else.

* `Ty.project`   data along a type, as a value
* `Ty.lower_of_readScalar`   data without parts
* `Catalogue.lower_of_decode`   data that fits and was read
* `Response.lower_of_extract`   the result of an operation
-/

namespace GraphQLCall

open Number

/-- data without parts as a value; a number where a type has floating point numbers is the nearest
one -/
def Ty.projectLeaf (t : Ty) (j : Json) : Value :=
  match t, j with
  | .double, .int n => .float (Binary.ofInt n)
  | .single, .int n => .float (Binary.widen (Binary.ofInt n))
  | .single, .float x => .float (Binary.widen (x.convert .single))
  | _, j => .ofJson j

mutual

/-- **Data along a type, as a value:** null as it is, the items of a list in order, and of an object
the entries that the record has names for, null for one that is not there. -/
def Ty.project (cat : Catalogue) (t : Ty) : Json → Value
  | .null => .null
  | .arr items =>
    match t.core with
    | .list inner => .list (Ty.projectItems cat inner items)
    | c => c.projectLeaf (.arr items)
  | .obj entries =>
    match t.core with
    | .declared name =>
      match cat.find? name with
      | some (.record r) =>
        .ofEntries (r.fields.map fun f => (f.name, Ty.projectEntry cat f.type f.name entries))
      | _ => .ofJson (.obj entries)
    | c => c.projectLeaf (.obj entries)
  | j => t.core.projectLeaf j

def Ty.projectItems (cat : Catalogue) (t : Ty) : List Json → List Value
  | [] => []
  | j :: rest => Ty.project cat t j :: Ty.projectItems cat t rest

/-- what an object has under a name, along a type -/
def Ty.projectEntry (cat : Catalogue) (t : Ty) (name : String) : List (String × Json) → Value
  | [] => .null
  | (k, j) :: rest =>
    if k = name then Ty.project cat t j else Ty.projectEntry cat t name rest

end

namespace Ty

variable {cat : Catalogue} {t : Ty} {j : Json} {d : Datum}

theorem projectItems_eq_map (items : List Json) :
    projectItems cat t items = items.map (t.project cat) := by
  induction items with
  | nil => rfl
  | cons j rest ih => rw [projectItems, ih, List.map_cons]

theorem projectEntry_eq (name : String) (entries : List (String × Json)) :
    projectEntry cat t name entries =
      (Entries.find? name entries).elim .null (t.project cat) := by
  induction entries with
  | nil => rfl
  | cons entry rest ih =>
    obtain ⟨k, j⟩ := entry
    rw [projectEntry, Entries.find?, ih]
    split <;> rfl

/-! ### one step -/

theorem project_scalar (ht : t.core.isScalar = true) : t.project cat j = t.core.projectLeaf j := by
  cases j with
  | null => cases t.core <;> rfl
  | arr items =>
    simp only [project]
    generalize t.core = c at ht
    cases c <;> first | rfl | cases ht
  | obj entries =>
    simp only [project]
    generalize t.core = c at ht
    cases c <;> first | rfl | cases ht
  | _ => simp only [project]

theorem project_list {inner : Ty} (ht : t.core = .list inner) (items : List Json) :
    t.project cat (.arr items) = .list (items.map (inner.project cat)) := by
  simp only [project, ht, projectItems_eq_map]

theorem project_obj {name : String} {r : RecordDecl} (ht : t.core = .declared name)
    (hr : cat.find? name = some (.record r)) (entries : List (String × Json)) :
    t.project cat (.obj entries) = .ofEntries (r.fields.map fun f =>
      (f.name, (Entries.find? f.name entries).elim .null (f.type.project cat))) := by
  simp only [project, ht, hr, projectEntry_eq]

/-! ### data that was read -/

theorem ofInteger_of_holds {kind : IntKind} {n : Int} (h : kind.holds n = true) :
    Value.ofInteger n = .int n := by
  simp only [IntKind.holds, Bool.and_eq_true, decide_eq_true_eq] at h
  refine if_pos ?_
  cases kind <;> simp only [IntKind.least, IntKind.greatest, Json.leastInt, Json.greatestInt] at h ⊢ <;>
    omega

theorem lower_of_readScalar (ht : t.isScalar = true) (h : t.readScalar j = .ok d) :
    d.lower = t.projectLeaf j := by
  cases t with
  | int kind =>
    cases j with
    | int n =>
      simp only [readScalar, IntKind.read] at h
      split at h
      · rename_i hholds
        cases h
        exact (ofInteger_of_holds hholds).symm
      · cases h
    | _ => cases h
  | char =>
    cases j with
    | str s =>
      simp only [readScalar] at h
      split at h
      · rename_i c hc
        cases h
        have hs : String.singleton c = s := by rw [← String.toList_inj, hc, String.toList_singleton]
        rw [Datum.lower, hs]
        rfl
      · cases h
    | _ => cases h
  | _ => cases j <;> first | (cases ht; done) | (cases h <;> rfl)

end Ty

namespace Catalogue

variable {cat : Catalogue} {t : Ty} {j : Json} {d : Datum}

theorem lowerItems_eq_map (ds : List Datum) : Datum.lowerItems ds = ds.map Datum.lower := by
  induction ds with
  | nil => rfl
  | cons d rest ih => rw [Datum.lowerItems, ih, List.map_cons]

theorem lowerFields_of_sent {fs : List FieldDecl} {fields : List (String × Bool × Datum)}
    {g : FieldDecl → Value}
    (h : List.Forall₂ (fun f e => ∃ d : Datum, e = (f.name, true, d) ∧ d.lower = g f) fs fields) :
    Datum.lowerFields fields = fs.map fun f => (f.name, g f) := by
  induction h with
  | nil => rfl
  | cons he _ ih =>
    obtain ⟨d, rfl, hd⟩ := he
    rw [Datum.lowerFields, if_pos rfl, hd, ih, List.map_cons]

/-- **The data of a field** is what the entry under its name was read as, and absent without one. -/
theorem datumOf_ok {r : RecordDecl} {f : FieldDecl} {entries : List (String × Json)}
    {found : List (String × Datum)} (agrees : r.Agrees) (whole : r.Whole) (hf : f ∈ r.fields)
    (hfound : decodeEntries cat r entries = .ok found) (h : RecordDecl.datumOf found f = .ok d) :
    (∃ j, Entries.find? f.name entries = some j ∧ cat.decode f.type j = .ok d) ∨
      Entries.find? f.name entries = none ∧ d = .absent := by
  obtain ⟨hshape, -, hfallback⟩ := whole f hf
  have hread : f ∈ r.readFields := RecordDecl.mem_readFields.mpr ⟨hf, hshape⟩
  have hfind := (decodeEntries_ok hfound).2 f.name f (agrees.fieldOf?_eq_some_iff.mpr ⟨hread, rfl⟩)
  rw [RecordDecl.datumOf, if_pos hshape, agrees.key_eq f hread] at h
  cases hentry : Entries.find? f.name entries with
  | none =>
    simp only [hentry] at hfind
    simp only [hfind, FieldDecl.missing, hfallback] at h
    split at h
    · cases h
      exact .inr ⟨rfl, rfl⟩
    · cases h
  | some j =>
    simp only [hentry] at hfind
    obtain ⟨d', hd', hdecode⟩ := hfind
    simp only [hd'] at h
    cases h
    exact .inl ⟨j, rfl, hdecode⟩

/-- **Data that fits and was read** is sent again as what it is along the type. -/
theorem lower_of_decode (closed : cat.Closed)
    (whole : ∀ name r, cat.find? name = some (.record r) → r.Whole) (ht : t.Known cat)
    (hfit : (Shape.deferred t).fit cat j = .ok ()) (h : cat.decode t j = .ok d) :
    d.lower = t.project cat j := by
  induction j using Json.induction generalizing t d with
  | step j ih =>
    cases decode_ok ht h with
    | absent hnull _ hd => rw [hnull, hd, Ty.project, Datum.lower]
    | scalar hs hread => rw [Ty.lower_of_readScalar hs hread, Ty.project_scalar hs]
    | @list inner items ds hl hinner hitems hds hd =>
      subst hitems hd
      have hitem : ∀ j ∈ items, ∀ d, cat.decode inner j = .ok d → d.lower = inner.project cat j :=
        fun j hmem d hd => ih j (.item hmem) hinner (Ty.fit_items hl hfit j hmem) hd
      have hall : ds.map Datum.lower = items.map (inner.project cat) := by
        rw [← List.forall₂_eq_eq_eq, List.forall₂_map_left_iff, List.forall₂_map_right_iff]
        have hmems := (List.forall₂_and_left _ _).mpr ⟨fun _ hmem => hmem, hds⟩
        exact hmems.flip.imp fun d j ⟨hmem, hd⟩ => hitem j hmem d hd
      rw [Ty.project_list hl, Datum.lower, lowerItems_eq_map, hall]
    | @record name r entries found hd hr hentries hfound hassemble =>
      subst hentries
      obtain ⟨fields, rfl, hfields⟩ := RecordDecl.assemble_ok hassemble
      have agrees := closed.agrees name r hr
      have hentry : ∀ f ∈ r.fields, ∀ d, RecordDecl.datumOf found f = .ok d →
          d.lower = (Entries.find? f.name entries).elim .null (f.type.project cat) := by
        intro f hf d hdatum
        have hread : f ∈ r.readFields :=
          RecordDecl.mem_readFields.mpr ⟨hf, (whole name r hr f hf).1⟩
        rcases datumOf_ok agrees (whole name r hr) hf hfound hdatum with
          ⟨j, hj, hdecode⟩ | ⟨hnone, rfl⟩
        · have hmem : (f.name, j) ∈ entries := Entries.mem_of_find? hj
          have hfit' := Ty.fit_entries hd hr hfit _ hmem f hread rfl
          rw [hj]
          exact ih j (.entry hmem) (closed.known name r hr f hread) hfit' hdecode
        · rw [hnone, Datum.lower]
          rfl
      have hmems := (List.forall₂_and_left _ _).mpr ⟨fun _ hmem => hmem, hfields⟩
      rw [Ty.project_obj hd hr, Datum.lower]
      refine congrArg _ (lowerFields_of_sent (hmems.imp fun f e ⟨hf, d, hdatum, he⟩ => ?_))
      obtain ⟨-, hsent, -⟩ := whole name r hr f hf
      exact ⟨d, hsent ▸ he, hentry f hf d hdatum⟩
    | inOrder hd hr hitems =>
      subst hitems
      exact absurd hfit (Ty.not_fit_items hd hr _)

end Catalogue

namespace Response

variable {cat : Catalogue} {t : Ty} {o : ExtractionOptions} {operation : String} {r : Response}
  {d : Datum}

/-- **The result of an operation** is sent again as what the payload has for the operation, along the
type: nothing that the type asks for is lost, and nothing else is in it. -/
theorem lower_of_extract (closed : cat.Closed)
    (whole : ∀ name decl, cat.find? name = some (.record decl) → decl.Whole) (ht : t.Known cat)
    (h : r.extract cat o operation t = .ok (some d)) :
    ∃ payload j, r.Holds o payload ∧ payload.at? (o.responsePath ++ [operation]) = some j ∧
      j ≠ .null ∧ d.lower = t.project cat j := by
  obtain ⟨j, hjson, hdecode⟩ := extract_eq_some_iff.mp h
  obtain ⟨payload, hholds, hat, hnull, hfit⟩ := extractJson_some_iff.mp hjson
  rw [Ty.fit_shape] at hfit
  exact ⟨payload, j, hholds, hat, hnull, Catalogue.lower_of_decode closed whole ht hfit hdecode⟩

/-- the octets of `{"find":{"rank":7,"type":"x","beers":[{"brandName":"P","id":1}]}}` -/
def breweryOctets : List UInt8 :=
  [123, 34, 102, 105, 110, 100, 34, 58, 123, 34, 114, 97, 110, 107, 34, 58, 55, 44, 34, 116,
    121, 112, 101, 34, 58, 34, 120, 34, 44, 34, 98, 101, 101, 114, 115, 34, 58, 91, 123, 34, 98,
    114, 97, 110, 100, 78, 97, 109, 101, 34, 58, 34, 80, 34, 44, 34, 105, 100, 34, 58, 49, 125,
    93, 125, 125]

/-- a brewery with one beer, of which little is known -/
def breweryDatum : Datum :=
  .record [("rank", true, .int 7), ("type", true, .char 'x'), ("beers", true,
    .list [.record [("brandName", true, .text "P"), ("abv", true, .absent),
      ("brewedBy", true, .absent)]])]

theorem lower_of_extract_brewery :
    let o : ExtractionOptions := ⟨[], [200], false⟩
    let r : Response := ⟨200, some [.data breweryOctets]⟩
    breweries.Closed ∧
    (∀ name decl, breweries.find? name = some (.record decl) → decl.Whole) ∧
    (Ty.declared "Brewery").Known breweries ∧
    r.extract breweries o "find" (.declared "Brewery") = .ok (some breweryDatum) ∧
    ∃ payload j, r.Holds o payload ∧ payload.at? ["find"] = some j ∧ j ≠ .null ∧
      breweryDatum.lower = (Ty.declared "Brewery").project breweries j := by
  intro o r
  have hknown : (Ty.declared "Brewery").Known breweries := ⟨breweryRecord, rfl⟩
  let j : Json := .obj [("beers", .arr [.obj [("brandName", .str "P"), ("id", .int 1)]]),
    ("rank", .int 7), ("type", .str "x")]
  have hread : r.payload o = .ok (.obj [("find", j)]) := by rfl
  have hfit : ((Ty.declared "Brewery").shape breweries).fit breweries j = .ok () := by
    rw [Ty.fit_shape]
    simp [j, Shape.fit, Shape.fitItems, Shape.fitEntries, Shape.fitLeaf, Shape.head, Ty.head,
      fields?_beer, fields?_brewery, Outcome.all, Ty.scalarKind, ScalarKind.accepts, Json.kind,
      Mismatch.within]
  have hdecode : breweries.decode (.declared "Brewery") j = .ok breweryDatum := by rfl
  have hlocate : locate o "find" (.obj [("find", j)]) = .ok (some j) := by rfl
  have hextract : r.extract breweries o "find" (.declared "Brewery") = .ok (some breweryDatum) := by
    simp only [extract, extractJson, hread, hlocate, hfit, hdecode]
  exact ⟨breweries_closed, fun _ _ => breweries_whole, hknown, hextract,
    lower_of_extract breweries_closed (fun _ _ => breweries_whole) hknown hextract⟩

end Response

end GraphQLCall
