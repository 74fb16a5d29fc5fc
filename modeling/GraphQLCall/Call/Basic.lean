import GraphQLCall.Call.SelectionSet
import GraphQLCall.Call.Literal

/-!
# Calls: operations

* `OperationKind`   what a call does
* `OperationCall`   a call of one operation
* `OperationCall.add`   one more argument, unless its name is taken
* `CallError`   why a call is not written; `CallError.message` says it
-/

namespace GraphQLCall

open Found (ticked)

/-- **What a call does.** -/
inductive OperationKind where
  | mutation
  | query
  | subscription
  deriving DecidableEq

namespace OperationKind

def all : List OperationKind := [.mutation, .query, .subscription]

def keyword : OperationKind → String
  | .mutation => "mutation"
  | .query => "query"
  | .subscription => "subscription"

def lowered (s : String) : String := String.ofList (s.toList.map Char.toLower)

/-- **The kind with a keyword,** in letters of either case. -/
def ofText? (s : String) : Option OperationKind :=
  all.find? fun k => k.keyword = lowered s

def unknownMessage (s : String) : String :=
  "Unknown operation kind " ++ ticked s ++ ". Expected one of: query, mutation, subscription"

end OperationKind

inductive NameRole where
  | operation
  | argument
  deriving DecidableEq

/-- **Why a call is not written.** -/
inductive CallError where
  | duplicateArgument (name : String)
  | invalidName (role : NameRole) (name : String)
  | nonFinite (place : NonFinite)
  | selection (error : SelectionError)
  deriving DecidableEq

namespace CallError

def message : CallError → String
  | .duplicateArgument name =>
    "Found multiple arguments named " ++ ticked name ++ " on this operation"
  | .invalidName .operation name =>
    ticked name ++ " is not a valid GraphQL name for an operation name"
  | .invalidName .argument name =>
    ticked name ++ " is not a valid GraphQL name for an argument name"
  | .nonFinite place =>
    "Argument " ++ ticked place.argument ++ " holds a non-finite float at " ++
      ticked place.path.text
  | .selection error => error.message

end CallError

/-- **A call of one operation:** its arguments in the order in which they were added, and the shape
of its result or the selection set that takes its place. -/
structure OperationCall where
  kind : OperationKind
  name : String
  result : Shape
  selectionOverride : Option String
  arguments : List Variable

namespace OperationCall

def ofResult (kind : OperationKind) (name : String) (result : Shape) : OperationCall :=
  ⟨kind, name, result, none, []⟩

def argumentNames (c : OperationCall) : List String := c.arguments.map (·.argumentName)

/-- **One more argument,** unless its name is taken. -/
def add (c : OperationCall) (v : Variable) : Except CallError OperationCall :=
  if v.argumentName ∈ c.argumentNames then .error (.duplicateArgument v.argumentName)
  else .ok { c with arguments := c.arguments ++ [v] }

def select (c : OperationCall) (text : String) : OperationCall :=
  { c with selectionOverride := some text }

end OperationCall

end GraphQLCall
