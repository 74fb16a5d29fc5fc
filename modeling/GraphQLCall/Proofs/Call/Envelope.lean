import GraphQLCall.Call.Envelope
import GraphQLCall.Proofs.Json.Reading
import GraphQLCall.Proofs.Response.Outcome

/-!
# Calls: what an envelope carries

An envelope is an object with one entry, in either layout, and the text of its entry is the document
as it was written: what a document has escaped is escaped once more, and read back once.

* `SynthesisOptions.parse_wrap`   the octets of an envelope as data
* `SynthesisOptions.isBlank_wrap`   an envelope is not blank
* `SynthesisOptions.extractJson_wrap`   a response whose body is an envelope
* `OperationCall.synthesize_outcome`   a call has an envelope if it has a document, which it carries
-/

namespace GraphQLCall

namespace SynthesisOptions

variable (o : SynthesisOptions) (document : String)

theorem wrap_eq : o.wrap document =
    if o.prettyEnvelope then (Json.obj [(o.envelopeField, .str document)]).pretty
    else (Json.obj [(o.envelopeField, .str document)]).compact := rfl

/-- **The octets of an envelope as data:** an object whose one entry is the document. -/
theorem parse_wrap :
    Json.parse (Utf8.octets (o.wrap document)) = .ok (.obj [(o.envelopeField, .str document)]) := by
  rw [wrap_eq]
  cases o.prettyEnvelope with
  | true => exact Json.parse_pretty_text o.envelopeField document
  | false => exact Json.parse_compact_text o.envelopeField document

/-- a blank body spells no data -/
theorem isBlank_wrap : Body.isBlank (Utf8.octets (o.wrap document)) = false := by
  have hbrace : (o.wrap document).toList.head? = some '\x7b' := by
    rw [wrap_eq]
    cases o.prettyEnvelope with
    | true => simp [Json.pretty, Json.prettyAt]
    | false => simp [Json.compact]
  obtain ⟨rest, hrest⟩ := List.head?_eq_some_iff.mp hbrace
  have hoctet : Utf8.octetsOf '\x7b' = [0x7B] := by decide
  have hspace : Body.isSpace 0x7B = false := by decide
  rw [Utf8.octets, hrest, List.flatMap_cons, hoctet, List.singleton_append, Body.isBlank,
    List.all_cons, hspace, Bool.false_and]

variable {o document}

/-- **A response whose body is an envelope** has the document as the result of the operation that is
named like its entry. -/
theorem extractJson_wrap {chunks : List Body.Chunk}
    (h : Body.Delivers chunks (Utf8.octets (o.wrap document))) (cat : Catalogue) :
    (Response.mk 200 (some chunks)).extractJson cat .default o.envelopeField (.scalar .string)
      = .ok (some (.str document)) := by
  have hstatus : 200 ∈ ExtractionOptions.default.successStatuses := by decide
  have hholds : (Response.mk 200 (some chunks)).Holds .default
      (.obj [(o.envelopeField, .str document)]) := by
    have hbrings : (Response.mk 200 (some chunks)).Brings .default
        (Utf8.octets (o.wrap document)) := ⟨hstatus, chunks, rfl, h⟩
    exact ⟨_, hbrings, o.isBlank_wrap document, o.parse_wrap document⟩
  have hat : (Json.obj [(o.envelopeField, .str document)]).at? [o.envelopeField]
      = some (.str document) := by
    rw [Json.at?_singleton, Json.entry?, Entries.find?, if_pos rfl]
  have hnull : Json.str document ≠ .null := by
    intro h
    cases h
  exact Response.extractJson_some_iff.mpr ⟨_, hholds, hat, hnull, rfl⟩

end SynthesisOptions

namespace OperationCall

/-- **The envelope of a call carries its document.**  Whatever the call, the name of the entry and
the layout: if the call has a document, it has an envelope, whose octets are those of a text and
spell an object with the document as its one entry; a response with that body gives the document
back.  If it has none, it has no envelope for the same reason. -/
theorem synthesize_outcome (cat : Catalogue) (o : SynthesisOptions) (c : OperationCall) :
    (∀ document, c.document cat = .ok document → ∃ envelope,
      c.synthesize cat o = .ok envelope ∧
      (Utf8.octets envelope).toByteArray.IsValidUTF8 ∧
      Utf8.text? (Utf8.octets envelope) = some envelope ∧
      Json.parse (Utf8.octets envelope) = .ok (.obj [(o.envelopeField, .str document)]) ∧
      ∀ (cat' : Catalogue) (chunks : List Body.Chunk),
        Body.Delivers chunks (Utf8.octets envelope) →
        (Response.mk 200 (some chunks)).extractJson cat' .default o.envelopeField (.scalar .string)
          = .ok (some (.str document))) ∧
    ∀ e, c.document cat = .error e → c.synthesize cat o = .error e := by
  constructor
  · intro document hdocument
    have henvelope : c.synthesize cat o = .ok (o.wrap document) := by
      rw [synthesize, hdocument]
      rfl
    exact ⟨o.wrap document, henvelope, Utf8.isValidUTF8_octets _, Utf8.text?_octets _,
      o.parse_wrap document, fun cat' _ hchunks => o.extractJson_wrap hchunks cat'⟩
  · intro e hdocument
    rw [synthesize, hdocument]
    rfl

/-- a call with an argument that is written as it is, and with the caller's selection set -/
def markedCall (name : String) : OperationCall :=
  ⟨.mutation, name, .scalar .any, some "\x7bn\\\x07é\x7d",
    [⟨"said", .str "\"\\\x1f\n𝄞", .scalar .string, ⟨none, [], true⟩⟩]⟩

/-- Quotes, a backslash, control characters and characters beyond ASCII, in the document and in the
name of the entry. -/
theorem markedCall_synthesize :
    let document := "mutation\x7bsay(said: \"\\\x1f\n𝄞) \x7bn\\\x07é\x7d\x7d"
    (markedCall "say").document [] = .ok document ∧
    (∃ envelope, (markedCall "say").synthesize [] ⟨"\"é\\\x00", true⟩ = .ok envelope ∧
      Json.parse (Utf8.octets envelope) = .ok (.obj [("\"é\\\x00", .str document)]) ∧
      (Response.mk 200 (some [.data (Utf8.octets envelope)])).extractJson [] .default "\"é\\\x00"
        (.scalar .string) = .ok (some (.str document))) ∧
    (markedCall "1st").document [] = .error (.invalidName .operation "1st") ∧
    (markedCall "1st").synthesize [] ⟨"query", false⟩
      = .error (.invalidName .operation "1st") := by
  intro document
  have hdocument : (markedCall "say").document [] = .ok document := by decide +kernel
  have hfails : (markedCall "1st").document [] = .error (.invalidName .operation "1st") := by
    decide +kernel
  refine ⟨hdocument, ?_, hfails,
    (synthesize_outcome [] ⟨"query", false⟩ (markedCall "1st")).2 _ hfails⟩
  obtain ⟨envelope, henvelope, -, -, hparse, hresponse⟩ :=
    (synthesize_outcome [] ⟨"\"é\\\x00", true⟩ (markedCall "say")).1 document hdocument
  refine ⟨envelope, henvelope, hparse, hresponse [] _ ?_⟩
  have hread : Body.readAll [.data (Utf8.octets envelope)] = .ok (Utf8.octets envelope) := by
    cases hoctets : Utf8.octets envelope with
    | nil => rfl
    | cons b bs => simp [Body.readAll]
  exact Body.readAll_eq_ok_iff.mp hread

end OperationCall

end GraphQLCall
