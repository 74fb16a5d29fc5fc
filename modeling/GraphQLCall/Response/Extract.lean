import GraphQLCall.Options
import GraphQLCall.Response.Body
import GraphQLCall.Response.Error
import GraphQLCall.Shape.Fit

/-!
# Responses: the result of an operation

* `serverErrors`   what the server reports besides
* `Response`   a status code with a body
* `Response.payload`   the JSON data of a response
* `container`   the object that holds one entry for each operation
* `locate`   the entry of an operation
* `Response.extractJson`   the result of an operation, checked against a shape
* `Response.extract`   the result of an operation, as a type
-/

namespace GraphQLCall

/-- the text of a reported error: its message, or the whole of it -/
def errorText (j : Json) : String :=
  match j.entry? "message" with
  | some (.str s) => s
  | _ => j.compact

/-- **What the server reports besides.** -/
def serverErrors (payload : Json) : List String :=
  match payload.entry? "errors" with
  | some (.arr errors) => errors.map errorText
  | _ => []

/-- **A status code with a body,** the body being given read by read if there is one. -/
structure Response where
  status : Nat
  body : Option (List Body.Chunk)

/-- **The JSON data of a response** whose status code is one of success. -/
def Response.payload (o : ExtractionOptions) (r : Response) : Except ResponseError Json :=
  if r.status ∉ o.successStatuses then .error (.unexpectedStatus r.status)
  else
    match r.body with
    | none => .error .emptyPayload
    | some chunks =>
      match Body.readAll chunks with
      | .error message => .error (.unreadable message)
      | .ok octets =>
        if Body.isBlank octets then .error .emptyPayload
        else (Json.parse octets).mapError .malformedPayload

def wayText (way : List String) : String :=
  if way.isEmpty then "<root>" else Text.join "." way

/-- **The object that holds one entry for each operation:** it is at the end of `path`, which starts
at `j`, itself at the end of `walked`.  Null on the way, or nothing, means that there is none. -/
def container (walked : List String) (path : List String) (j : Json) :
    Except ResponseError (Option (List (String × Json))) :=
  match j with
  | .null => .ok none
  | .obj entries =>
    match path with
    | [] => .ok (some entries)
    | key :: rest =>
      match Entries.find? key entries with
      | none => .ok none
      | some next => container (walked ++ [key]) rest next
  | _ => .error (.mismatch (wayText walked) (.notObject j.kind))

/-- the entry of an operation, null being none -/
def entryOf (operation : String) (entries : Option (List (String × Json))) : Option Json :=
  match entries with
  | none => none
  | some entries =>
    match Entries.find? operation entries with
    | some .null => none
    | found => found

/-- **The entry of an operation** in a payload.  Without one the server's errors are the failure, if
they are to be. -/
def locate (o : ExtractionOptions) (operation : String) (payload : Json) :
    Except ResponseError (Option Json) :=
  match container [] o.responsePath payload with
  | .error e => .error e
  | .ok entries =>
    match entryOf operation entries with
    | some j => .ok (some j)
    | none =>
      if o.surfaceServerErrors && !(serverErrors payload).isEmpty then
        .error (.serverErrors operation (serverErrors payload))
      else .ok none

namespace Response

/-- **The result of an operation,** checked against a shape. -/
def extractJson (cat : Catalogue) (o : ExtractionOptions) (operation : String) (s : Shape)
    (r : Response) : Except ResponseError (Option Json) :=
  match r.payload o with
  | .error e => .error e
  | .ok payload =>
    match locate o operation payload with
    | .error e => .error e
    | .ok none => .ok none
    | .ok (some j) =>
      match s.fit cat j with
      | .error m => .error (.ofMismatch operation m)
      | .ok () => .ok (some j)

/-- **The result of an operation,** as a type. -/
def extract (cat : Catalogue) (o : ExtractionOptions) (operation : String) (t : Ty)
    (r : Response) : Except ResponseError (Option Datum) :=
  match r.extractJson cat o operation (t.shape cat) with
  | .error e => .error e
  | .ok none => .ok none
  | .ok (some j) =>
    match cat.decode t j with
    | .error m => .error (.ofMismatch operation m)
    | .ok d => .ok (some d)

end Response

end GraphQLCall
