import GraphQLCall.Proofs.Response.Outcome

/-!
# Responses: what else a payload holds

The data that a payload has for an operation stands at the end of the response path, under the name
of the operation.  Where it is not null the outcome comes from it alone, and a shape only lets it
pass or refuses it; where there is none, no shape is looked at.

* `Response.Gives`   the data of an operation
* `Response.extractJson_of_gives`   the outcome where there is data
* `Response.extractJson_of_not_gives`   the outcome where there is none
* `Response.outcome_of_data`   nothing else of a response or of the options is observed
-/

namespace GraphQLCall.Response

/-- **A response gives data for an operation:** its payload has data that is not null at the end of
the response path, under the name of the operation. -/
def Gives (o : ExtractionOptions) (operation : String) (r : Response) (j : Json) : Prop :=
  ∃ payload, r.Holds o payload ∧ payload.at? (o.responsePath ++ [operation]) = some j ∧ j ≠ .null

variable {o o' : ExtractionOptions} {operation : String} {r r' : Response} {j : Json}

theorem locate_of_gives (h : r.Gives o operation j) :
    ∃ payload, r.payload o = .ok payload ∧ locate o operation payload = .ok (some j) := by
  obtain ⟨payload, hholds, hat, hnull⟩ := h
  exact ⟨payload, payload_of_holds hholds, locate_eq_some_iff.mpr ⟨hat, hnull⟩⟩

/-- **The outcome where there is data** comes from the data and the shape. -/
theorem extractJson_of_gives (h : r.Gives o operation j) (cat : Catalogue) (s : Shape) :
    r.extractJson cat o operation s = match s.fit cat j with
      | .error m => .error (.ofMismatch operation m)
      | .ok () => .ok (some j) := by
  obtain ⟨payload, hpayload, hlocate⟩ := locate_of_gives h
  unfold extractJson
  rw [hpayload]
  cases hfit : s.fit cat j with
  | error m => simp only [hlocate, hfit]
  | ok u => simp only [hlocate, hfit]

/-- **The outcome where there is no data** does not come from a shape. -/
theorem extractJson_of_not_gives (h : ∀ j, ¬ r.Gives o operation j) (cat cat' : Catalogue)
    (s s' : Shape) : r.extractJson cat o operation s = r.extractJson cat' o operation s' := by
  unfold extractJson
  cases hpayload : r.payload o with
  | error e => rfl
  | ok payload =>
    have hholds : r.Holds o payload := payload_eq_ok_iff.mp hpayload
    cases hlocate : locate o operation payload with
    | error e => simp only [hlocate]
    | ok found =>
      cases found with
      | none => simp only [hlocate]
      | some j =>
        obtain ⟨hat, hnull⟩ := locate_eq_some_iff.mp hlocate
        exact absurd ⟨payload, hholds, hat, hnull⟩ (h j)

/-- the outcome as a type comes from the outcome as data -/
theorem extract_congr {cat : Catalogue} {t : Ty} (h : r.extractJson cat o operation (t.shape cat)
    = r'.extractJson cat o' operation (t.shape cat)) :
    r.extract cat o operation t = r'.extract cat o' operation t := by
  unfold extract
  rw [h]

/-- **Nothing but its data is observed of an operation.**  Where two responses give an operation the
same data, each under its own options, all their outcomes are the same: whatever else the payloads
hold, in other entries, on the way or as errors, and whatever the options make of errors.  A shape
only filters: the data passes as it is or is refused; and where a response gives no data, the outcome
is the same for all shapes. -/
theorem outcome_of_data (cat : Catalogue) (operation : String) :
    (∀ (o o' : ExtractionOptions) (r r' : Response) (j : Json),
      r.Gives o operation j → r'.Gives o' operation j →
      (∀ s, r.extractJson cat o operation s = r'.extractJson cat o' operation s) ∧
      ∀ t, r.extract cat o operation t = r'.extract cat o' operation t) ∧
    (∀ (o : ExtractionOptions) (r : Response) (j : Json), r.Gives o operation j → ∀ s,
      s.fit cat j = .ok () ∧ r.extractJson cat o operation s = .ok (some j) ∨
      ∃ m, s.fit cat j = .error m ∧
        r.extractJson cat o operation s = .error (.mismatch (m.place operation) m.reason)) ∧
    ∀ (o : ExtractionOptions) (r : Response), (∀ j, ¬ r.Gives o operation j) →
      ∀ s s', r.extractJson cat o operation s = r.extractJson cat o operation s' := by
  refine ⟨?_, ?_, ?_⟩
  · intro o o' r r' j hr hr'
    have hsame (s : Shape) :
        r.extractJson cat o operation s = r'.extractJson cat o' operation s := by
      rw [extractJson_of_gives hr, extractJson_of_gives hr']
    exact ⟨hsame, fun t => extract_congr (hsame _)⟩
  · intro o r j hr s
    have houtcome := extractJson_of_gives hr cat s
    cases hfit : s.fit cat j with
    | ok u =>
      rw [hfit] at houtcome
      exact .inl ⟨rfl, houtcome⟩
    | error m =>
      rw [hfit] at houtcome
      exact .inr ⟨m, rfl, houtcome⟩
  · intro o r hno s s'
    exact extractJson_of_not_gives hno cat cat s s'

/-- the octets of `{"errors":{"errors":[7]}}` -/
def nestedErrors : List UInt8 :=
  [123, 34, 101, 114, 114, 111, 114, 115, 34, 58, 123, 34, 101, 114, 114, 111, 114, 115, 34, 58, 91,
    55, 93, 125, 125]

/-- the octets of `{"a":1,"errors":{"errors":[7],"find":0}}` -/
def nestedErrorsBeside : List UInt8 :=
  [123, 34, 97, 34, 58, 49, 44, 34, 101, 114, 114, 111, 114, 115, 34, 58, 123, 34, 101, 114, 114,
    111, 114, 115, 34, 58, 91, 55, 93, 44, 34, 102, 105, 110, 100, 34, 58, 48, 125, 125]

/-- An operation and a key of the response path that both have the name of the list of errors. -/
theorem outcome_of_nested_errors :
    let o : ExtractionOptions := ⟨["errors"], [200], true⟩
    let o' : ExtractionOptions := ⟨["errors"], [200], false⟩
    let r : Response := ⟨200, some [.data nestedErrors]⟩
    let r' : Response := ⟨200, some [.interrupted, .data nestedErrorsBeside]⟩
    r.Gives o "errors" (.arr [.int 7]) ∧ r'.Gives o' "errors" (.arr [.int 7]) ∧
    (∀ s, r.extractJson [] o "errors" s = r'.extractJson [] o' "errors" s) ∧
    r.extractJson [] o "errors" (.list (.scalar .int)) = .ok (some (.arr [.int 7])) ∧
    (∀ j, ¬ r.Gives o "find" j) ∧
    r.extractJson [] o "find" (.scalar .int) = r.extractJson [] o "find" (.scalar .string) := by
  intro o o' r r'
  have hr : r.Gives o "errors" (.arr [.int 7]) := by
    refine ⟨.obj [("errors", .obj [("errors", .arr [.int 7])])],
      ⟨nestedErrors, ⟨by decide, _, rfl, ?_⟩, by rfl, by rfl⟩, by rfl, nofun⟩
    exact Body.readAll_eq_ok_iff.mp (by rfl)
  have hr' : r'.Gives o' "errors" (.arr [.int 7]) := by
    refine ⟨.obj [("a", .int 1), ("errors", .obj [("errors", .arr [.int 7]), ("find", .int 0)])],
      ⟨nestedErrorsBeside, ⟨by decide, _, rfl, ?_⟩, by rfl, by rfl⟩, by rfl, nofun⟩
    exact Body.readAll_eq_ok_iff.mp (by rfl)
  obtain ⟨hsame, hfilter, -⟩ := outcome_of_data [] "errors"
  have hpasses : r.extractJson [] o "errors" (.list (.scalar .int)) = .ok (some (.arr [.int 7])) := by
    rcases hfilter o r _ hr (.list (.scalar .int)) with ⟨-, houtcome⟩ | ⟨m, hfit, -⟩
    · exact houtcome
    · cases hfit
  have hpayload : r.payload o = .ok (.obj [("errors", .obj [("errors", .arr [.int 7])])]) := by rfl
  have hno (j : Json) : ¬ r.Gives o "find" j := by
    rintro ⟨payload, hholds, hat, -⟩
    rw [payload_of_holds hholds] at hpayload
    cases hpayload
    cases hat
  exact ⟨hr, hr', (hsame o o' r r' _ hr hr').1, hpasses, hno,
    (outcome_of_data [] "find").2.2 o r hno _ _⟩

end GraphQLCall.Response
