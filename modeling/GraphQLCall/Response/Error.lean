import GraphQLCall.Json.Reader
import GraphQLCall.Mismatch
import GraphQLCall.Text.Join

/-!
# Responses: why one gives no result

* `ResponseError`   why a response gives no result; `ResponseError.message` says it
-/

namespace GraphQLCall

open Found (ticked)

/-- **Why a response gives no result.** -/
inductive ResponseError where
  | unexpectedStatus (status : Nat)
  | emptyPayload
  | unreadable (message : String)
  | malformedPayload (fault : Json.Fault)
  | mismatch (path : String) (reason : Reason)
  | serverErrors (operation : String) (messages : List String)

namespace ResponseError

/-- what is said of it, without the account that the reader of JSON gives of a fault -/
def message : ResponseError → String
  | .unexpectedStatus status => "Unexpected HTTP response status code: " ++ toString status
  | .emptyPayload => "Response does not contain a payload"
  | .unreadable message => "Failed to read the response body: " ++ message
  | .malformedPayload _ => "Response payload is not valid JSON"
  | .mismatch path reason =>
    "Failed to decode the result at " ++ ticked path ++ ": " ++ reason.message
  | .serverErrors operation messages =>
    "Server reported errors and no data for operation " ++ ticked operation ++ ": " ++
      Text.join "; " messages

def ofMismatch (operation : String) (m : Mismatch) : ResponseError :=
  .mismatch (m.place operation) m.reason

end ResponseError

end GraphQLCall
