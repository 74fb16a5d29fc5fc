import GraphQLCall.Proofs.Response.Body
import GraphQLCall.Proofs.Response.Walk

/-!
# Responses: the outcome of an extraction

What becomes of a response is told apart step by step: the status code, the body, the data, the walk
to the result, the errors that the server reports, the shape.  Of these the first that rules the
result out is the outcome, and no two of them do so at once.

* `Json.Reports`   the text of a reported error
* `Json.ReportsErrors`   the errors that a payload reports
* `Response.extractJson_eq_error_iff`, `Response.extractJson_eq_ok_iff`   the steps
* `Response.extract_eq_some_iff`   a result as a type
* `Response.extractJson_outcome`   each outcome with what it comes from, and what does not change it
-/

namespace GraphQLCall

open Json (Strays Misses)

namespace Json

/-- **The text of a reported error:** its message, if that is a text, and else the whole of it. -/
inductive Reports (error : Json) : String → Prop
  | message {text : String} : error.entry? "message" = some (.str text) → Reports error text
  | whole : (∀ text, error.entry? "message" ≠ some (.str text)) → Reports error error.compact

/-- **The errors that a payload reports:** those of the list under `errors`, if it has any. -/
def ReportsErrors (payload : Json) (texts : List String) : Prop :=
  ∃ errors, payload.entry? "errors" = some (.arr errors) ∧ errors ≠ [] ∧
    List.Forall₂ Reports errors texts

variable {error payload : Json} {text : String} {texts : List String}

theorem reports_iff : error.Reports text ↔ errorText error = text := by
  unfold errorText
  split
  · rename_i s hs
    constructor
    · intro h
      cases h with
      | message hm =>
        rw [hs] at hm
        cases hm
        rfl
      | whole hno => exact absurd hs (hno s)
    · rintro rfl
      exact .message hs
  · rename_i hno
    constructor
    · intro h
      cases h with
      | message hm => exact absurd hm (hno text)
      | whole => rfl
    · rintro rfl
      exact .whole hno

theorem reportsErrors_iff :
    payload.ReportsErrors texts ↔ serverErrors payload = texts ∧ texts ≠ [] := by
  have hall {errors : List Json} {texts : List String} :
      List.Forall₂ Reports errors texts ↔ errors.map errorText = texts := by
    rw [← List.forall₂_eq_eq_eq, List.forall₂_map_left_iff]
    exact ⟨fun h => h.imp fun _ _ => reports_iff.mp, fun h => h.imp fun _ _ => reports_iff.mpr⟩
  unfold ReportsErrors serverErrors
  split
  · rename_i errors herrors
    constructor
    · rintro ⟨errors', herrors', hne, htexts⟩
      rw [herrors] at herrors'
      cases herrors'
      obtain rfl := hall.mp htexts
      exact ⟨rfl, fun h => hne (List.map_eq_nil_iff.mp h)⟩
    · rintro ⟨rfl, hne⟩
      exact ⟨errors, herrors, fun h => hne (h ▸ rfl), hall.mpr rfl⟩
  · rename_i hno
    constructor
    · rintro ⟨errors, herrors, -⟩
      exact absurd herrors (hno errors)
    · rintro ⟨rfl, hne⟩
      exact absurd rfl hne

end Json

namespace Response

variable {cat : Catalogue} {o : ExtractionOptions} {operation : String} {s : Shape} {r : Response}
  {e : ResponseError} {j : Json}

theorem extractJson_eq_ok_iff {found : Option Json} :
    r.extractJson cat o operation s = .ok found ↔ ∃ payload, r.Holds o payload ∧
      locate o operation payload = .ok found ∧ ∀ j ∈ found, s.fit cat j = .ok () := by
  simp only [← payload_eq_ok_iff]
  unfold extractJson
  cases r.payload o with
  | error e => simp
  | ok payload =>
    simp only [Except.ok.injEq, exists_eq_left']
    cases locate o operation payload with
    | error e => simp
    | ok located =>
      cases located with
      | none => simp +contextual [eq_comm]
      | some j => cases hfit : s.fit cat j <;> simp +contextual [hfit, eq_comm]

theorem extractJson_eq_error_iff : r.extractJson cat o operation s = .error e ↔
    r.Fails o e ∨ ∃ payload, r.Holds o payload ∧ (locate o operation payload = .error e ∨
      ∃ j m, locate o operation payload = .ok (some j) ∧ s.fit cat j = .error m ∧
        e = .ofMismatch operation m) := by
  simp only [← payload_eq_ok_iff, ← payload_eq_error_iff]
  unfold extractJson
  cases r.payload o with
  | error e => simp
  | ok payload =>
    simp only [Except.ok.injEq, exists_eq_left', reduceCtorEq, false_or]
    cases locate o operation payload with
    | error e => simp
    | ok located =>
      cases located with
      | none => simp
      | some j => cases hfit : s.fit cat j <;> simp [hfit, eq_comm]

/-! ### the outcomes one by one -/

/-- **A response without a payload** fails for that, and nothing else is looked at. -/
theorem extractJson_of_payload (hm : ∀ path reason, e ≠ .mismatch path reason)
    (hs : ∀ name texts, e ≠ .serverErrors name texts) :
    r.extractJson cat o operation s = .error e ↔ r.Fails o e := by
  rw [extractJson_eq_error_iff]
  refine ⟨?_, .inl⟩
  rintro (hfails | ⟨payload, -, hlocate | ⟨j, m, -, -, rfl⟩⟩)
  · exact hfails
  · rcases locate_eq_error_iff.mp hlocate with ⟨walked, v, -, rfl⟩ | ⟨-, -, rfl⟩
    · exact absurd rfl (hm _ _)
    · exact absurd rfl (hs _ _)
  · exact absurd rfl (hm _ _)

theorem extractJson_unexpectedStatus_iff {status : Nat} :
    r.extractJson cat o operation s = .error (.unexpectedStatus status) ↔
      r.status ∉ o.successStatuses ∧ status = r.status := by
  refine (extractJson_of_payload (by simp) (by simp)).trans ?_
  constructor
  · intro h
    cases h with
    | status hstatus => exact ⟨hstatus, rfl⟩
  · rintro ⟨hstatus, rfl⟩
    exact .status hstatus

theorem extractJson_emptyPayload_iff :
    r.extractJson cat o operation s = .error .emptyPayload ↔ r.status ∈ o.successStatuses ∧
      (r.body = none ∨ ∃ octets, r.Brings o octets ∧ Body.isBlank octets = true) := by
  refine (extractJson_of_payload (by simp) (by simp)).trans ?_
  constructor
  · intro h
    cases h with
    | noBody hstatus hbody => exact ⟨hstatus, .inl hbody⟩
    | blank hbrings hblank => exact ⟨hbrings.1, .inr ⟨_, hbrings, hblank⟩⟩
  · rintro ⟨hstatus, hbody | ⟨octets, hbrings, hblank⟩⟩
    · exact .noBody hstatus hbody
    · exact .blank hbrings hblank

theorem extractJson_unreadable_iff {message : String} :
    r.extractJson cat o operation s = .error (.unreadable message) ↔
      r.status ∈ o.successStatuses ∧
        ∃ chunks, r.body = some chunks ∧ Body.BreaksOff chunks message := by
  refine (extractJson_of_payload (by simp) (by simp)).trans ?_
  constructor
  · intro h
    cases h with
    | broken hstatus hbody hbroken => exact ⟨hstatus, _, hbody, hbroken⟩
  · rintro ⟨hstatus, chunks, hbody, hbroken⟩
    exact .broken hstatus hbody hbroken

theorem extractJson_malformedPayload_iff {fault : Json.Fault} :
    r.extractJson cat o operation s = .error (.malformedPayload fault) ↔
      ∃ octets, r.Brings o octets ∧ Body.isBlank octets = false ∧
        Json.parse octets = .error fault := by
  refine (extractJson_of_payload (by simp) (by simp)).trans ?_
  constructor
  · intro h
    cases h with
    | malformed hbrings hblank hparse => exact ⟨_, hbrings, hblank, hparse⟩
  · rintro ⟨octets, hbrings, hblank, hparse⟩
    exact .malformed hbrings hblank hparse

theorem extractJson_mismatch_iff {path : String} {reason : Reason} :
    r.extractJson cat o operation s = .error (.mismatch path reason) ↔
      ∃ payload, r.Holds o payload ∧
        ((∃ walked v, Strays o.responsePath payload walked v ∧ path = wayText walked ∧
            reason = .notObject v.kind) ∨
          ∃ j m, payload.at? (o.responsePath ++ [operation]) = some j ∧ j ≠ .null ∧
            s.fit cat j = .error m ∧ path = m.place operation ∧ reason = m.reason) := by
  rw [extractJson_eq_error_iff]
  simp only [locate_eq_error_iff, locate_eq_some_iff]
  constructor
  · rintro (hfails | ⟨payload, hholds, (⟨walked, v, hstrays, he⟩ | ⟨-, -, he⟩) | ⟨j, m, hj, hm, he⟩⟩)
    · cases hfails
    · cases he
      exact ⟨payload, hholds, .inl ⟨walked, v, hstrays, rfl, rfl⟩⟩
    · cases he
    · cases he
      exact ⟨payload, hholds, .inr ⟨j, m, hj.1, hj.2, hm, rfl, rfl⟩⟩
  · rintro ⟨payload, hholds, ⟨walked, v, hstrays, rfl, rfl⟩ | ⟨j, m, hat, hnull, hm, rfl, rfl⟩⟩
    · exact .inr ⟨payload, hholds, .inl (.inl ⟨walked, v, hstrays, rfl⟩)⟩
    · exact .inr ⟨payload, hholds, .inr ⟨j, m, ⟨hat, hnull⟩, hm, rfl⟩⟩

theorem surfaces_iff {payload : Json} :
    (o.surfaceServerErrors && !(serverErrors payload).isEmpty) = true ↔
      o.surfaceServerErrors = true ∧ payload.ReportsErrors (serverErrors payload) := by
  simp [Json.reportsErrors_iff]

theorem extractJson_serverErrors_iff {name : String} {texts : List String} :
    r.extractJson cat o operation s = .error (.serverErrors name texts) ↔
      name = operation ∧ ∃ payload, r.Holds o payload ∧
        Misses (o.responsePath ++ [operation]) payload ∧ o.surfaceServerErrors = true ∧
          payload.ReportsErrors texts := by
  rw [extractJson_eq_error_iff]
  simp only [locate_eq_error_iff, surfaces_iff]
  constructor
  · rintro (hfails | ⟨payload, hholds, (⟨walked, v, -, he⟩ | ⟨hmisses, hsurfaces, he⟩) |
      ⟨j, m, -, -, he⟩⟩)
    · cases hfails
    · cases he
    · cases he
      exact ⟨rfl, payload, hholds, hmisses, hsurfaces⟩
    · cases he
  · rintro ⟨rfl, payload, hholds, hmisses, hsurfaces, hreports⟩
    obtain ⟨rfl, -⟩ := Json.reportsErrors_iff.mp hreports
    exact .inr ⟨payload, hholds, .inl (.inr ⟨hmisses, ⟨hsurfaces, hreports⟩, rfl⟩)⟩

theorem extractJson_none_iff : r.extractJson cat o operation s = .ok none ↔
    ∃ payload, r.Holds o payload ∧ Misses (o.responsePath ++ [operation]) payload ∧
      ¬ (o.surfaceServerErrors = true ∧ ∃ texts, payload.ReportsErrors texts) := by
  rw [extractJson_eq_ok_iff]
  refine exists_congr fun payload => and_congr_right fun _ => ?_
  rw [locate_eq_none_iff, ← Bool.not_eq_true, surfaces_iff]
  refine ⟨fun ⟨⟨hmisses, hno⟩, _⟩ => ⟨hmisses, ?_⟩, fun ⟨hmisses, hno⟩ => ⟨⟨hmisses, ?_⟩, nofun⟩⟩
  · rintro ⟨hsurfaces, texts, hreports⟩
    obtain ⟨rfl, -⟩ := Json.reportsErrors_iff.mp hreports
    exact hno ⟨hsurfaces, hreports⟩
  · exact fun ⟨hsurfaces, hreports⟩ => hno ⟨hsurfaces, _, hreports⟩

theorem extractJson_some_iff : r.extractJson cat o operation s = .ok (some j) ↔
    ∃ payload, r.Holds o payload ∧ payload.at? (o.responsePath ++ [operation]) = some j ∧
      j ≠ .null ∧ s.fit cat j = .ok () := by
  rw [extractJson_eq_ok_iff]
  refine exists_congr fun payload => and_congr_right fun _ => ?_
  rw [locate_eq_some_iff]
  simp [and_assoc]

/-- **The result as a type** is what the result was read as. -/
theorem extract_eq_some_iff {t : Ty} {d : Datum} : r.extract cat o operation t = .ok (some d) ↔
    ∃ j, r.extractJson cat o operation (t.shape cat) = .ok (some j) ∧ cat.decode t j = .ok d := by
  unfold extract
  cases r.extractJson cat o operation (t.shape cat) with
  | error e => simp
  | ok found =>
    cases found with
    | none => simp
    | some j => cases hdecode : cat.decode t j <;> simp [hdecode]

/-- **The outcomes of an extraction,** each with what it comes from; and what of the body does not
change the outcome: a read that was interrupted, and where one read ends and the next begins. -/
theorem extractJson_outcome (cat : Catalogue) (o : ExtractionOptions) (operation : String)
    (s : Shape) (r : Response) :
    (∀ status, r.extractJson cat o operation s = .error (.unexpectedStatus status) ↔
      r.status ∉ o.successStatuses ∧ status = r.status) ∧
    (r.extractJson cat o operation s = .error .emptyPayload ↔ r.status ∈ o.successStatuses ∧
      (r.body = none ∨ ∃ octets, r.Brings o octets ∧ Body.isBlank octets = true)) ∧
    (∀ message, r.extractJson cat o operation s = .error (.unreadable message) ↔
      r.status ∈ o.successStatuses ∧
        ∃ chunks, r.body = some chunks ∧ Body.BreaksOff chunks message) ∧
    (∀ fault, r.extractJson cat o operation s = .error (.malformedPayload fault) ↔
      ∃ octets, r.Brings o octets ∧ Body.isBlank octets = false ∧
        Json.parse octets = .error fault) ∧
    (∀ path reason, r.extractJson cat o operation s = .error (.mismatch path reason) ↔
      ∃ payload, r.Holds o payload ∧
        ((∃ walked v, Strays o.responsePath payload walked v ∧ path = wayText walked ∧
            reason = .notObject v.kind) ∨
          ∃ j m, payload.at? (o.responsePath ++ [operation]) = some j ∧ j ≠ .null ∧
            s.fit cat j = .error m ∧ path = m.place operation ∧ reason = m.reason)) ∧
    (∀ name texts, r.extractJson cat o operation s = .error (.serverErrors name texts) ↔
      name = operation ∧ ∃ payload, r.Holds o payload ∧
        Misses (o.responsePath ++ [operation]) payload ∧ o.surfaceServerErrors = true ∧
          payload.ReportsErrors texts) ∧
    (r.extractJson cat o operation s = .ok none ↔ ∃ payload, r.Holds o payload ∧
      Misses (o.responsePath ++ [operation]) payload ∧
        ¬ (o.surfaceServerErrors = true ∧ ∃ texts, payload.ReportsErrors texts)) ∧
    (∀ j, r.extractJson cat o operation s = .ok (some j) ↔ ∃ payload, r.Holds o payload ∧
      payload.at? (o.responsePath ++ [operation]) = some j ∧ j ≠ .null ∧
        s.fit cat j = .ok ()) ∧
    (∀ (status : Nat) (read rest : List Body.Chunk),
      (Response.mk status (some (read ++ .interrupted :: rest))).extractJson cat o operation s =
        (Response.mk status (some (read ++ rest))).extractJson cat o operation s) ∧
    ∀ (status : Nat) (read rest : List Body.Chunk) (octets octets' : List UInt8),
      octets ≠ [] → octets' ≠ [] →
      (Response.mk status (some (read ++ .data octets :: .data octets' :: rest))).extractJson
          cat o operation s =
        (Response.mk status (some (read ++ .data (octets ++ octets') :: rest))).extractJson
          cat o operation s := by
  refine ⟨fun _ => extractJson_unexpectedStatus_iff, extractJson_emptyPayload_iff,
    fun _ => extractJson_unreadable_iff, fun _ => extractJson_malformedPayload_iff,
    fun _ _ => extractJson_mismatch_iff, fun _ _ => extractJson_serverErrors_iff,
    extractJson_none_iff, fun _ => extractJson_some_iff, fun status read rest => ?_,
    fun status read rest octets octets' h h' => ?_⟩
  · simp only [extractJson, Response.payload, Body.readAll_interrupted]
  · simp only [extractJson, Response.payload, Body.readAll_split h h']

/-- the octets of `{"data":[],` -/
def listOctets : List UInt8 := [123, 34, 100, 97, 116, 97, 34, 58, 91, 93, 44]

/-- the octets of `"errors":["no"]}` -/
def errorOctets : List UInt8 :=
  [34, 101, 114, 114, 111, 114, 115, 34, 58, 91, 34, 110, 111, 34, 93, 125]

/-- A list stands where the results should be: the errors besides are passed over, and so is that the
body comes in two reads. -/
theorem extractJson_of_list_with_errors :
    let o : ExtractionOptions := ⟨["data"], [200], true⟩
    let outcome := Except.error (.mismatch "data" (.notObject .list))
    (Response.mk 200 (some [.data (listOctets ++ errorOctets)])).extractJson [] o "find"
      (.scalar .any) = outcome ∧
    (Response.mk 200 (some [.data listOctets, .data errorOctets])).extractJson [] o "find"
      (.scalar .any) = outcome := by
  intro o outcome
  have hall := extractJson_outcome [] o "find" (.scalar .any)
  have hwhole : (Response.mk 200 (some [.data (listOctets ++ errorOctets)])).extractJson [] o "find"
      (.scalar .any) = outcome := by
    refine ((hall _).2.2.2.2.1 _ _).mpr ⟨.obj [("data", .arr []), ("errors", .arr [.str "no"])],
      ⟨listOctets ++ errorOctets, ⟨by decide, _, rfl, ?_⟩, by rfl, by rfl⟩,
      .inl ⟨["data"], .arr [], ⟨List.prefix_rfl, rfl, nofun, nofun⟩, by rfl, by rfl⟩⟩
    exact Body.readAll_eq_ok_iff.mp (by rfl)
  exact ⟨hwhole, ((hall ⟨200, none⟩).2.2.2.2.2.2.2.2.2 200 [] [] listOctets errorOctets nofun
    nofun).trans hwhole⟩

end Response

end GraphQLCall
