import GraphQLCall.Mismatch

/-!
# Scalar kinds

* `ScalarKind`   the kinds of data without parts
* `ScalarKind.graphqlName`, `ScalarKind.ofGraphQLName?`   a kind by the name it has in a schema
* `ScalarKind.accepts`   whether a value that is not null is of a kind
-/

namespace GraphQLCall

/-- **The kinds of data without parts;** `any` takes everything. -/
inductive ScalarKind where
  | any
  | boolean
  | float
  | id
  | int
  | string
  deriving DecidableEq

namespace ScalarKind

def all : List ScalarKind := [.any, .boolean, .float, .id, .int, .string]

def graphqlName : ScalarKind → String
  | .any => "Any"
  | .boolean => "Boolean"
  | .float => "Float"
  | .id => "ID"
  | .int => "Int"
  | .string => "String"

def ofGraphQLName? (name : String) : Option ScalarKind :=
  all.find? fun k => k.graphqlName = name

/-- **Whether a value that is not null is of a kind.** -/
def accepts (k : ScalarKind) (j : Json) : Bool :=
  match k, j.kind with
  | .any, _ => true
  | .boolean, .boolean => true
  | .float, .integer | .float, .float => true
  | .id, .integer | .id, .string => true
  | .int, .integer => true
  | .string, .string => true
  | _, _ => false

def dataName : ScalarKind → String
  | .id => "Id"
  | k => k.graphqlName

end ScalarKind

end GraphQLCall
