import GraphQLCall.Proofs.Outcome
import GraphQLCall.Response.Extract

/-!
# Responses: what a body delivers

The reads of a body go on until one finds its end or fails.  What they give counts only as a whole:
neither where one read ends and the next begins nor a read that was interrupted changes it.

* `Body.Delivers`, `Body.BreaksOff`   a body that is read to its end, and one that is not
* `Body.readAll_eq_ok_iff`, `Body.readAll_eq_error_iff`   what is read of it
* `Body.readAll_interrupted`, `Body.readAll_split`   what does not change it
* `Response.Brings`, `Response.Holds`   the octets and the payload of a response
* `Response.Fails`   why a response has no payload
* `Response.payload_eq_ok_iff`, `Response.payload_eq_error_iff`   its payload, or why it has none
-/

namespace GraphQLCall

namespace Body

/-- whether there is more to read behind a read -/
def Chunk.goesOn : Chunk → Bool
  | .data octets => !octets.isEmpty
  | .interrupted => true
  | .failed _ => false

def Chunk.octets : Chunk → List UInt8
  | .data octets => octets
  | _ => []

/-- **A body is read to its end:** there are no more reads, or one of them finds nothing. -/
def Delivers (chunks : List Chunk) (octets : List UInt8) : Prop :=
  ∃ read rest, chunks = read ++ rest ∧ (∀ c ∈ read, c.goesOn = true) ∧
    octets = read.flatMap Chunk.octets ∧ (rest = [] ∨ ∃ more, rest = .data [] :: more)

/-- **A body breaks off:** a read fails before the end. -/
def BreaksOff (chunks : List Chunk) (message : String) : Prop :=
  ∃ read rest, chunks = read ++ .failed message :: rest ∧ ∀ c ∈ read, c.goesOn = true

variable {chunks more more' : List Chunk} {octets : List UInt8} {message : String}

theorem readAll_cons {c : Chunk} (h : c.goesOn = true) (rest : List Chunk) :
    readAll (c :: rest) = (readAll rest).map (c.octets ++ ·) := by
  cases c with
  | data octets =>
    rw [readAll, if_neg (by simpa [Chunk.goesOn] using h)]
    cases readAll rest <;> rfl
  | interrupted =>
    rw [readAll]
    cases readAll rest <;> rfl
  | failed message => cases h

theorem readAll_append (read rest : List Chunk) (h : ∀ c ∈ read, c.goesOn = true) :
    readAll (read ++ rest) = (readAll rest).map (read.flatMap Chunk.octets ++ ·) := by
  induction read with
  | nil =>
    rw [List.nil_append]
    cases readAll rest <;> rfl
  | cons c read ih =>
    obtain ⟨hc, hread⟩ := List.forall_mem_cons.mp h
    rw [List.cons_append, readAll_cons hc, ih hread]
    cases readAll rest <;> simp [Except.map]

theorem Delivers.cons {c : Chunk} (hc : c.goesOn = true) (h : Delivers chunks octets) :
    Delivers (c :: chunks) (c.octets ++ octets) := by
  obtain ⟨read, rest, rfl, hread, rfl, hrest⟩ := h
  exact ⟨c :: read, rest, rfl, List.forall_mem_cons.mpr ⟨hc, hread⟩, rfl, hrest⟩

theorem BreaksOff.cons {c : Chunk} (hc : c.goesOn = true) (h : BreaksOff chunks message) :
    BreaksOff (c :: chunks) message := by
  obtain ⟨read, rest, rfl, hread⟩ := h
  exact ⟨c :: read, rest, rfl, List.forall_mem_cons.mpr ⟨hc, hread⟩⟩

theorem delivers_of_readAll (h : readAll chunks = .ok octets) : Delivers chunks octets := by
  induction chunks generalizing octets with
  | nil =>
    cases h
    exact ⟨[], [], rfl, nofun, rfl, .inl rfl⟩
  | cons c rest ih =>
    by_cases hc : c.goesOn = true
    · rw [readAll_cons hc] at h
      obtain ⟨last, hlast, rfl⟩ := Outcome.map_eq_ok_iff.mp h
      exact (ih hlast).cons hc
    · cases c with
      | data os =>
        obtain rfl : os = [] := by simpa [Chunk.goesOn] using hc
        cases h
        exact ⟨[], .data [] :: rest, rfl, nofun, rfl, .inr ⟨rest, rfl⟩⟩
      | interrupted => exact absurd rfl hc
      | failed message => cases h

theorem breaksOff_of_readAll (h : readAll chunks = .error message) : BreaksOff chunks message := by
  induction chunks with
  | nil => cases h
  | cons c rest ih =>
    by_cases hc : c.goesOn = true
    · rw [readAll_cons hc] at h
      exact (ih (Outcome.map_eq_error_iff.mp h)).cons hc
    · cases c with
      | data os =>
        obtain rfl : os = [] := by simpa [Chunk.goesOn] using hc
        cases h
      | interrupted => exact absurd rfl hc
      | failed message' =>
        cases h
        exact ⟨[], rest, rfl, nofun⟩

theorem readAll_eq_ok_iff : readAll chunks = .ok octets ↔ Delivers chunks octets := by
  refine ⟨delivers_of_readAll, ?_⟩
  rintro ⟨read, rest, rfl, hread, rfl, hrest⟩
  have hlast : readAll rest = .ok [] := by
    rcases hrest with rfl | ⟨more, rfl⟩ <;> rfl
  rw [readAll_append read rest hread, hlast, Except.map, List.append_nil]

theorem readAll_eq_error_iff : readAll chunks = .error message ↔ BreaksOff chunks message := by
  refine ⟨breaksOff_of_readAll, ?_⟩
  rintro ⟨read, rest, rfl, hread⟩
  rw [readAll_append read _ hread, readAll, Except.map]

theorem readAll_append_congr (read : List Chunk) (h : readAll more = readAll more') :
    readAll (read ++ more) = readAll (read ++ more') := by
  induction read with
  | nil => exact h
  | cons c read ih =>
    rw [List.cons_append, List.cons_append]
    cases c <;> simp only [readAll, ih]

/-- **A read that was interrupted** changes nothing. -/
theorem readAll_interrupted (read rest : List Chunk) :
    readAll (read ++ .interrupted :: rest) = readAll (read ++ rest) :=
  readAll_append_congr read rfl

/-- **Where one read ends and the next begins** changes nothing. -/
theorem readAll_split {octets' : List UInt8} (h : octets ≠ []) (h' : octets' ≠ [])
    (read rest : List Chunk) :
    readAll (read ++ .data octets :: .data octets' :: rest) =
      readAll (read ++ .data (octets ++ octets') :: rest) := by
  have hdata {os : List UInt8} (hos : os ≠ []) : (Chunk.data os).goesOn = true := by
    simpa [Chunk.goesOn] using hos
  refine readAll_append_congr read ?_
  rw [readAll_cons (hdata h), readAll_cons (hdata h'),
    readAll_cons (hdata (List.append_ne_nil_of_left_ne_nil h _))]
  cases readAll rest <;> simp [Except.map, Chunk.octets]

end Body

/-! ### the payload -/

namespace Response

/-- **The octets of a response** whose status code is one of success and whose body is read to its
end. -/
def Brings (o : ExtractionOptions) (r : Response) (octets : List UInt8) : Prop :=
  r.status ∈ o.successStatuses ∧ ∃ chunks, r.body = some chunks ∧ Body.Delivers chunks octets

/-- **The payload of a response:** the JSON data that its octets spell. -/
def Holds (o : ExtractionOptions) (r : Response) (payload : Json) : Prop :=
  ∃ octets, r.Brings o octets ∧ Body.isBlank octets = false ∧ Json.parse octets = .ok payload

/-- **Why a response has no payload.** -/
inductive Fails (o : ExtractionOptions) (r : Response) : ResponseError → Prop
  | status : r.status ∉ o.successStatuses → Fails o r (.unexpectedStatus r.status)
  | noBody : r.status ∈ o.successStatuses → r.body = none → Fails o r .emptyPayload
  | blank {octets : List UInt8} : r.Brings o octets → Body.isBlank octets = true →
      Fails o r .emptyPayload
  | broken {chunks : List Body.Chunk} {message : String} : r.status ∈ o.successStatuses →
      r.body = some chunks → Body.BreaksOff chunks message → Fails o r (.unreadable message)
  | malformed {octets : List UInt8} {fault : Json.Fault} : r.Brings o octets →
      Body.isBlank octets = false → Json.parse octets = .error fault →
      Fails o r (.malformedPayload fault)

variable {o : ExtractionOptions} {r : Response} {payload : Json} {e : ResponseError}
  {octets : List UInt8}

theorem payload_of_brings (h : r.Brings o octets) : r.payload o =
    if Body.isBlank octets then .error .emptyPayload
    else (Json.parse octets).mapError .malformedPayload := by
  obtain ⟨hstatus, chunks, hbody, hchunks⟩ := h
  rw [Response.payload, if_neg (not_not_intro hstatus), hbody]
  simp only [Body.readAll_eq_ok_iff.mpr hchunks]

theorem payload_of_fails (h : r.Fails o e) : r.payload o = .error e := by
  cases h with
  | status hstatus => rw [Response.payload, if_pos hstatus]
  | noBody hstatus hbody => rw [Response.payload, if_neg (not_not_intro hstatus), hbody]
  | blank hbrings hblank => rw [payload_of_brings hbrings, if_pos hblank]
  | broken hstatus hbody hbroken =>
    rw [Response.payload, if_neg (not_not_intro hstatus), hbody]
    simp only [Body.readAll_eq_error_iff.mpr hbroken]
  | malformed hbrings hblank hparse =>
    rw [payload_of_brings hbrings, hblank, hparse]
    rfl

theorem payload_of_holds (h : r.Holds o payload) : r.payload o = .ok payload := by
  obtain ⟨octets, hbrings, hblank, hparse⟩ := h
  rw [payload_of_brings hbrings, hblank, hparse]
  rfl

/-- **A response has a payload, or there is a reason why it has none.** -/
theorem holds_or_fails (o : ExtractionOptions) (r : Response) :
    (∃ payload, r.Holds o payload) ∨ ∃ e, r.Fails o e := by
  by_cases hstatus : r.status ∈ o.successStatuses
  swap
  · exact .inr ⟨_, .status hstatus⟩
  cases hbody : r.body with
  | none => exact .inr ⟨_, .noBody hstatus hbody⟩
  | some chunks =>
    cases hread : Body.readAll chunks with
    | error message =>
      exact .inr ⟨_, .broken hstatus hbody (Body.readAll_eq_error_iff.mp hread)⟩
    | ok octets =>
      have hbrings : r.Brings o octets :=
        ⟨hstatus, chunks, hbody, Body.readAll_eq_ok_iff.mp hread⟩
      cases hblank : Body.isBlank octets with
      | true => exact .inr ⟨_, .blank hbrings hblank⟩
      | false =>
        cases hparse : Json.parse octets with
        | error fault => exact .inr ⟨_, .malformed hbrings hblank hparse⟩
        | ok payload => exact .inl ⟨payload, octets, hbrings, hblank, hparse⟩

theorem payload_eq_ok_iff : r.payload o = .ok payload ↔ r.Holds o payload := by
  refine ⟨fun h => ?_, payload_of_holds⟩
  rcases holds_or_fails o r with ⟨payload', hholds⟩ | ⟨e, hfails⟩
  · rw [payload_of_holds hholds] at h
    cases h
    exact hholds
  · rw [payload_of_fails hfails] at h
    cases h

theorem payload_eq_error_iff : r.payload o = .error e ↔ r.Fails o e := by
  refine ⟨fun h => ?_, payload_of_fails⟩
  rcases holds_or_fails o r with ⟨payload', hholds⟩ | ⟨e', hfails⟩
  · rw [payload_of_holds hholds] at h
    cases h
  · rw [payload_of_fails hfails] at h
    cases h
    exact hfails

end Response

end GraphQLCall
