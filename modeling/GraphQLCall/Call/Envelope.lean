import GraphQLCall.Call.Document
import GraphQLCall.Options

/-!
# Calls: the envelope

* `SynthesisOptions.wrap`   the JSON object whose one entry is a document
* `OperationCall.synthesize`   the envelope of a call
-/

namespace GraphQLCall

/-- **The JSON object whose one entry is a document.** -/
def SynthesisOptions.wrap (o : SynthesisOptions) (document : String) : String :=
  let envelope := Json.ofEntries [(o.envelopeField, .str document)]
  if o.prettyEnvelope then envelope.pretty else envelope.compact

/-- **The envelope of a call.** -/
def OperationCall.synthesize (cat : Catalogue) (o : SynthesisOptions) (c : OperationCall) :
    Except CallError String :=
  (c.document cat).map o.wrap

end GraphQLCall
