import GraphQLCall.Proofs.Response.Independence
import GraphQLCall.Proofs.Shape.Walk
import GraphQLCall.Proofs.Types.Agreement

/-!
# Types: the place of a mismatch

A result passes two stages on its way to a type, the check against the shape of the type and the
decoder.  The place that either of them tells is one of the result: that of the data which the stage
refuses, as the type that it stands for, or that of a field which an object lacks.

* `Stage`, `Stage.run`, `Stage.Fails`   the stages, and the first that fails
* `Stage.Locates`   the places that a stage may tell
* `Catalogue.leads_of_shape`   the steps along the shape of a type are steps along the type
* `Catalogue.locates_of_fit`, `Catalogue.locates_of_decode`   the stages tell no others
* `Response.extract_of_gives`   the outcome as a type where there is data
* `Response.mismatch_place`   the place of a mismatch of a result
-/

namespace GraphQLCall

/-! ### stages -/

/-- **A field that must be there.** -/
def FieldDecl.Required (f : FieldDecl) : Prop := f.fallback = none ∧ f.type.nullable = false

/-- **The stages that data passes** on its way to a type. -/
inductive Stage where
  | check
  | decode

namespace Stage

/-- whether data passes a stage -/
def run (cat : Catalogue) (t : Ty) (j : Json) : Stage → Except Mismatch Unit
  | check => (t.shape cat).fit cat j
  | decode => (cat.decode t j).map fun _ => ()

/-- **A stage that fails:** the decoder only where the check does not. -/
def Fails (cat : Catalogue) (t : Ty) (j : Json) (stage : Stage) (m : Mismatch) : Prop :=
  stage.run cat t j = .error m ∧ (stage = decode → check.run cat t j = .ok ())

/-- **The places that a stage may tell:** the steps lead to data that the stage refuses as a whole, as
the type there; or all steps but the last lead to an object that lacks a field which the record there
must have, and the last is that field. -/
inductive Locates (cat : Catalogue) (t : Ty) (j : Json) : Stage → List Step → Reason → Prop
  | refused {stage : Stage} {steps : List Step} {reason : Reason} {t' : Ty} {j' : Json} :
      cat.Leads t j steps t' j' → stage.run cat t' j' = .error (.here reason) →
      (∀ key, reason ≠ .missingField key) →
      Locates cat t j stage steps reason
  | missing {steps : List Step} {t' : Ty} {name : String} {r : RecordDecl} {f : FieldDecl}
      {entries : List (String × Json)} :
      cat.Leads t j steps t' (.obj entries) → (∀ e ∈ entries, e.1 ≠ f.key) →
      t'.core = .declared name → cat.find? name = some (.record r) → f ∈ r.readFields →
      f.Required →
      Locates cat t j decode (steps ++ [.key f.key]) (.missingField f.key)

end Stage

/-! ### steps along a type -/

theorem Mismatch.target_behind (step : Step) (m : Mismatch) :
    (m.behind step).target = step :: m.target := by
  obtain ⟨steps, reason⟩ := m
  cases reason <;> rfl

namespace Catalogue

variable {cat : Catalogue} {t t' : Ty} {j j' : Json} {m : Mismatch} {steps : List Step}

theorem Leads.part? (h : cat.Leads t j steps t' j') (hj : j.Regular) :
    j.part? steps = some j' := by
  induction h with
  | here => rfl
  | item _ hi _ ih =>
    rw [Json.part?, hi, Option.bind_some, ih (hj.of_items _ (List.mem_of_getElem? hi))]
  | entry _ _ _ hmem _ ih =>
    cases hj with
    | obj hstrict hall =>
      rw [Json.part?, Json.entry?,
        (Entries.find?_eq_some_iff_of_nodup hstrict.nodup).mpr hmem, Option.bind_some,
        ih (hall _ hmem)]

theorem list_of_head {s : Shape} (ht : t.Known cat) (h : t.head cat = .list s) :
    ∃ inner, t.core = .list inner ∧ inner.Known cat ∧ s = .deferred inner := by
  cases ht.form with
  | scalar hscalar =>
    rw [Ty.head_of_scalar hscalar] at h
    cases h
  | list hl hinner =>
    rw [Ty.head_of_list hl] at h
    cases h
    exact ⟨_, hl, hinner, rfl⟩
  | record hd hr =>
    rw [Ty.head_of_record hd hr] at h
    cases h

theorem record_of_head {typeName : Option String} {fields : List (String × Shape)}
    (ht : t.Known cat) (h : t.head cat = .object typeName fields) :
    ∃ name r, t.core = .declared name ∧ cat.find? name = some (.record r) ∧
      fields = r.shape.map fun f => (f.1, .deferred f.2) := by
  cases ht.form with
  | scalar hscalar =>
    rw [Ty.head_of_scalar hscalar] at h
    cases h
  | list hl =>
    rw [Ty.head_of_list hl] at h
    cases h
  | record hd hr =>
    rw [Ty.head_of_record hd hr] at h
    cases h
    exact ⟨_, _, hd, hr, rfl⟩

/-- **The steps along the shape of a type** are steps along the type. -/
theorem leads_of_shape {s' : Shape} (closed : cat.Closed) (ht : t.Known cat)
    (h : (Shape.deferred t).Leads cat j steps s' j') :
    ∃ t', s' = .deferred t' ∧ t'.Known cat ∧ cat.Leads t j steps t' j' := by
  generalize hs : Shape.deferred t = s at h
  induction h generalizing t with
  | here =>
    subst hs
    exact ⟨t, rfl, ht, .here t _⟩
  | item hhead hi _ ih =>
    subst hs
    obtain ⟨inner, hl, hinner, rfl⟩ := list_of_head ht hhead
    obtain ⟨t', rfl, hknown, hleads⟩ := ih hinner rfl
    exact ⟨t', rfl, hknown, .item hl hi hleads⟩
  | field hhead hf hfind _ ih =>
    subst hs
    obtain ⟨name, r, hd, hr, rfl⟩ := record_of_head ht hhead
    obtain ⟨f, hread, rfl, rfl⟩ := RecordDecl.mem_shape.mp hf
    obtain ⟨t', rfl, hknown, hleads⟩ := ih (closed.known name r hr f hread) rfl
    -- the check goes by the names of fields and the decoder by their keys, which agree
    rw [← (closed.agrees name r hr).key_eq f hread] at hfind ⊢
    exact ⟨t', rfl, hknown, .entry hd hr hread (Entries.mem_of_find? hfind) hleads⟩

/-- the objects of a type's shape have their fields in order -/
theorem ascends_of_known (closed : cat.Closed) (ht : t.Known cat) :
    (Shape.deferred t).Ascends cat := by
  intro j steps s' j' typeName fields hleads hhead
  obtain ⟨t', rfl, hknown, -⟩ := leads_of_shape closed ht hleads
  obtain ⟨name, r, -, -, rfl⟩ := record_of_head hknown hhead
  exact (Entries.ascending_sort _).map_values _

/-! ### the stages one by one -/

theorem refusal?_ne_missing {v : Visit} {reason : Reason} (h : v.refusal? cat = some reason)
    (key : String) : reason ≠ .missingField key := by
  rintro rfl
  unfold Visit.refusal? at h
  split at h
  · cases h
  · split at h <;> split at h <;> cases h

theorem target_of_fit (closed : cat.Closed) (ht : t.Known cat) (hj : j.Regular)
    (h : (Shape.deferred t).fit cat j = .error m) : m.target = m.steps := by
  rw [Shape.fit_eq_error_iff (ascends_of_known closed ht) hj] at h
  obtain ⟨_, _, _, _, _, hrefusal, _⟩ := h
  exact Mismatch.target_eq_steps (refusal?_ne_missing hrefusal)

/-- **The check tells the place of data that it refuses.** -/
theorem locates_of_fit (closed : cat.Closed) (ht : t.Known cat) (hj : j.Regular)
    (h : (Shape.deferred t).fit cat j = .error m) :
    Stage.Locates cat t j .check m.target m.reason := by
  rw [target_of_fit closed ht hj h]
  rw [Shape.fit_eq_error_iff (ascends_of_known closed ht) hj] at h
  obtain ⟨before, v, after, hvisited, -, hrefusal, hsteps⟩ := h
  have hmem : v ∈ (Shape.deferred t).visited cat j := by
    rw [hvisited]
    exact List.mem_append_right before List.mem_cons_self
  obtain ⟨t', hshape, -, hleads⟩ := leads_of_shape closed ht (Shape.mem_visited_iff.mp hmem)
  have hrefused : (t'.shape cat).fit cat v.data = .error (.here m.reason) := by
    rw [Ty.fit_shape, ← hshape]
    exact Shape.fit_of_refusal hrefusal
  rw [← hsteps]
  exact .refused hleads hrefused (refusal?_ne_missing hrefusal)

/-- the place of a part, seen from the list that it is an item of -/
theorem locates_item {stage : Stage} {inner : Ty} {items : List Json} {i : Nat} {reason : Reason}
    (ht : t.core = .list inner) (hi : items[i]? = some j)
    (h : Stage.Locates cat inner j stage steps reason) :
    Stage.Locates cat t (.arr items) stage (.index i :: steps) reason := by
  cases h with
  | refused hleads hrun hmissing => exact .refused (.item ht hi hleads) hrun hmissing
  | missing hleads hnone hd hr hf hrequired =>
    exact .missing (.item ht hi hleads) hnone hd hr hf hrequired

/-- the place of a part, seen from the object that has it in a field -/
theorem locates_entry {stage : Stage} {name : String} {r : RecordDecl} {f : FieldDecl}
    {entries : List (String × Json)} {reason : Reason} (ht : t.core = .declared name)
    (hr : cat.find? name = some (.record r)) (hf : f ∈ r.readFields) (hj : (f.key, j) ∈ entries)
    (h : Stage.Locates cat f.type j stage steps reason) :
    Stage.Locates cat t (.obj entries) stage (.key f.key :: steps) reason := by
  cases h with
  | refused hleads hrun hmissing => exact .refused (.entry ht hr hf hj hleads) hrun hmissing
  | missing hleads hnone hd hr' hf' hrequired =>
    exact .missing (.entry ht hr hf hj hleads) hnone hd hr' hf' hrequired

/-- **The decoder tells the place of data that it refuses,** or that of a missing field. -/
theorem locates_of_decode (closed : cat.Closed) (ht : t.Known cat)
    (hfit : (Shape.deferred t).fit cat j = .ok ()) (h : cat.decode t j = .error m) :
    Stage.Locates cat t j .decode m.target m.reason := by
  induction j using Json.induction generalizing t m with
  | step j ih =>
    have hhere (reason : Reason) (hm : m = .here reason)
        (hmissing : ∀ key, reason ≠ .missingField key) :
        Stage.Locates cat t j .decode m.target m.reason := by
      have hrun : Stage.decode.run cat t j = .error (.here reason) :=
        Outcome.map_eq_error_iff.mpr (hm ▸ h)
      rw [hm, Mismatch.target_eq_steps hmissing]
      exact .refused (.here t j) hrun hmissing
    cases decode_error ht h with
    | scalar hs hread hnull =>
      rcases (Ty.fit_iff_of_scalar hs).mp hfit with rfl | haccepts
      · obtain ⟨-, wanted, hm⟩ := Ty.readScalar_null hs hread
        exact hhere _ hm nofun
      · obtain ⟨reason, hm, hout⟩ := Ty.readScalar_error hs haccepts hread
        exact hhere reason hm (by cases hout <;> exact nofun)
    | noItems _ _ _ hm => exact hhere _ hm nofun
    | noEntries _ _ _ _ _ hm => exact hhere _ hm nofun
    | @item inner items i j' m' hl hinner hitems hi hm' hm =>
      subst hitems hm
      have hmem : j' ∈ items := List.mem_of_getElem? hi
      have hpart := ih j' (.item hmem) hinner (Ty.fit_items hl hfit j' hmem) hm'
      rw [Mismatch.target_behind]
      exact locates_item hl hi hpart
    | @entry name r entries f j' m' hd hr hentries hf hmem hm' hm =>
      subst hentries hm
      have hname : f.name = f.key := ((closed.agrees name r hr).key_eq f hf).symm
      have hfit' := Ty.fit_entries hd hr hfit _ hmem f hf hname
      have hpart := ih j' (.entry hmem) (closed.known name r hr f hf) hfit' hm'
      rw [Mismatch.target_behind]
      exact locates_entry hd hr hf hmem hpart
    | missing hd hr hentries hf hnone hfallback hrequired hm =>
      subst hentries hm
      exact .missing (.here t _) hnone hd hr hf ⟨hfallback, hrequired⟩
    | inOrder hd hr hitems =>
      subst hitems
      exact absurd hfit (Ty.not_fit_items hd hr _)

end Catalogue

/-! ### results -/

namespace Response

variable {cat : Catalogue} {t : Ty} {o : ExtractionOptions} {operation : String} {r : Response}
  {j : Json}

/-- **The outcome as a type where there is data:** the stages one after the other. -/
theorem extract_of_gives (h : r.Gives o operation j) (cat : Catalogue) (t : Ty) :
    r.extract cat o operation t =
      match (t.shape cat).fit cat j with
      | .error m => .error (.ofMismatch operation m)
      | .ok () =>
        match cat.decode t j with
        | .error m => .error (.ofMismatch operation m)
        | .ok d => .ok (some d) := by
  unfold extract
  rw [extractJson_of_gives h]
  cases (t.shape cat).fit cat j with
  | error m => rfl
  | ok u => rfl

theorem extract_eq_mismatch_iff (h : r.Gives o operation j) {path : String} {reason : Reason} :
    r.extract cat o operation t = .error (.mismatch path reason) ↔
      ∃ stage m, Stage.Fails cat t j stage m ∧ path = m.place operation ∧ reason = m.reason := by
  have hstages : (∃ stage m, Stage.Fails cat t j stage m ∧ path = m.place operation ∧
      reason = m.reason) ↔
      (∃ m, (t.shape cat).fit cat j = .error m ∧ path = m.place operation ∧ reason = m.reason) ∨
      ∃ m, (t.shape cat).fit cat j = .ok () ∧ cat.decode t j = .error m ∧
        path = m.place operation ∧ reason = m.reason := by
    constructor
    · rintro ⟨stage, m, ⟨hrun, hbefore⟩, hpath, hreason⟩
      cases stage with
      | check => exact .inl ⟨m, hrun, hpath, hreason⟩
      | decode =>
        exact .inr ⟨m, hbefore rfl, Outcome.map_eq_error_iff.mp hrun, hpath, hreason⟩
    · rintro (⟨m, hfit, hpath, hreason⟩ | ⟨m, hfit, hdecode, hpath, hreason⟩)
      · exact ⟨.check, m, ⟨hfit, nofun⟩, hpath, hreason⟩
      · exact ⟨.decode, m, ⟨Outcome.map_eq_error_iff.mpr hdecode, fun _ => hfit⟩, hpath, hreason⟩
  rw [hstages, extract_of_gives h]
  cases (t.shape cat).fit cat j with
  | error m => simp [ResponseError.ofMismatch, eq_comm]
  | ok u => cases cat.decode t j <;> simp [ResponseError.ofMismatch, eq_comm]

theorem Gives.regular (h : r.Gives o operation j) : j.Regular := by
  obtain ⟨payload, ⟨octets, -, -, hparse⟩, hat, -⟩ := h
  exact (Json.parse_regular hparse).at? hat

/-- **The place of a mismatch of a result is one of the result,** at whichever stage it is found.  It
is written as the name of the operation and the steps, by the check as it walks along the shape of the
type, and by the decoder step by step from the steps that it reports. -/
theorem mismatch_place (closed : cat.Closed) (ht : t.Known cat) (hj : r.Gives o operation j) :
    (∀ path reason, r.extract cat o operation t = .error (.mismatch path reason) ↔
      ∃ stage m, Stage.Fails cat t j stage m ∧ Stage.Locates cat t j stage m.target reason ∧
        path = operation ++ Step.renderAll m.target ∧ reason = m.reason) ∧
    (∀ steps t' j', cat.Leads t j steps t' j' → j.part? steps = some j') ∧
    (∀ m limit, Stage.Fails cat t j .check m → j.depth < limit →
      (t.shape cat).walk cat limit operation j =
        .error (.refused (operation ++ Step.renderAll m.target) m.reason)) ∧
    ∀ m : Mismatch, m.replay operation = operation ++ Step.renderAll m.target := by
  have hlocates (stage : Stage) (m : Mismatch) (h : Stage.Fails cat t j stage m) :
      Stage.Locates cat t j stage m.target m.reason := by
    obtain ⟨hrun, hbefore⟩ := h
    cases stage with
    | check =>
      have hfit : (t.shape cat).fit cat j = .error m := hrun
      exact Catalogue.locates_of_fit closed ht hj.regular (Ty.fit_shape cat t j ▸ hfit)
    | decode =>
      have hfit : (t.shape cat).fit cat j = .ok () := hbefore rfl
      exact Catalogue.locates_of_decode closed ht (Ty.fit_shape cat t j ▸ hfit)
        (Outcome.map_eq_error_iff.mp hrun)
  refine ⟨fun path reason => ?_, fun _ _ _ hleads => hleads.part? hj.regular,
    fun m limit hfails hlimit => ?_,
    fun m => (m.place_eq_replay operation).symm.trans (m.place_eq operation)⟩
  · rw [extract_eq_mismatch_iff hj]
    refine exists_congr fun stage => exists_congr fun m => and_congr_right fun hfails => ?_
    rw [m.place_eq]
    constructor
    · rintro ⟨hpath, rfl⟩
      exact ⟨hlocates stage m hfails, hpath, rfl⟩
    · rintro ⟨-, hpath, hreason⟩
      exact ⟨hpath, hreason⟩
  · have hfit : (t.shape cat).fit cat j = .error m := hfails.1
    rw [Ty.fit_shape] at hfit
    have hhead : (t.shape cat).head cat = (Shape.deferred t).head cat := t.head_shape cat
    rw [Shape.walk_congr hhead,
      Shape.walk_eq hlimit (Catalogue.ascends_of_known closed ht) hj.regular, hfit,
      Catalogue.target_of_fit closed ht hj.regular hfit]
    rfl

/-- the octets of `{"find":{"rank":7,"beers":[{"id":1}]}}` -/
def namelessBeer : List UInt8 :=
  [123, 34, 102, 105, 110, 100, 34, 58, 123, 34, 114, 97, 110, 107, 34, 58, 55, 44, 34, 98, 101,
    101, 114, 115, 34, 58, 91, 123, 34, 105, 100, 34, 58, 49, 125, 93, 125, 125]

/-- A beer without a name, one step below the place that the decoder reports. -/
theorem mismatch_place_of_nameless_beer :
    let o : ExtractionOptions := ⟨[], [200], false⟩
    let r : Response := ⟨200, some [.data namelessBeer]⟩
    let j : Json := .obj [("beers", .arr [.obj [("id", .int 1)]]), ("rank", .int 7)]
    let t : Ty := .declared "Brewery"
    breweries.Closed ∧ t.Known breweries ∧ r.Gives o "find" j ∧
    r.extract breweries o "find" t =
      .error (.mismatch "find.beers[0].brandName" (.missingField "brandName")) ∧
    ∃ stage m, Stage.Fails breweries t j stage m ∧
      Stage.Locates breweries t j stage m.target (.missingField "brandName") ∧
      "find.beers[0].brandName" = "find" ++ Step.renderAll m.target ∧
      .missingField "brandName" = m.reason := by
  intro o r j t
  have hknown : t.Known breweries := ⟨breweryRecord, rfl⟩
  have hgives : r.Gives o "find" j := by
    refine ⟨.obj [("find", j)], ⟨namelessBeer, ⟨by decide, _, rfl, ?_⟩, by rfl, by rfl⟩, by rfl,
      nofun⟩
    exact Body.readAll_eq_ok_iff.mp (by rfl)
  have hextract : r.extract breweries o "find" t =
      .error (.mismatch "find.beers[0].brandName" (.missingField "brandName")) := by
    have hread : r.payload o = .ok (.obj [("find", j)]) := by rfl
    have hfit : (t.shape breweries).fit breweries j = .ok () := by
      rw [Ty.fit_shape]
      simp [j, t, Shape.fit, Shape.fitItems, Shape.fitEntries, Shape.fitLeaf, Shape.head, Ty.head,
        fields?_beer, fields?_brewery, Outcome.all, Ty.scalarKind, ScalarKind.accepts, Json.kind,
        Mismatch.within]
    have hdecode : breweries.decode t j =
        .error ⟨[.key "beers", .index 0], .missingField "brandName"⟩ := by rfl
    have hlocate : locate o "find" (.obj [("find", j)]) = .ok (some j) := by rfl
    simp only [extract, extractJson, hread, hlocate, hfit, hdecode]
    rfl
  obtain ⟨hplace, -⟩ := mismatch_place breweries_closed hknown hgives
  exact ⟨breweries_closed, hknown, hgives, hextract, (hplace _ _).mp hextract⟩

end Response

end GraphQLCall
