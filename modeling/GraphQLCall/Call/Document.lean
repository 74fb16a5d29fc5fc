import GraphQLCall.Call.Basic
import GraphQLCall.Outcome

/-!
# Calls: documents

* `isName`   whether a text is a name
* `OperationCall.checkNames`   the first name of a call that is none
* `OperationCall.selectionText`   the selection set of a call
* `OperationCall.document`   the text of a call
-/

namespace GraphQLCall

def isNameStart (c : Char) : Bool := c = '_' || c.isAlpha

def isNameRest (c : Char) : Bool := c = '_' || c.isAlphanum

/-- **Whether a text is a name:** ASCII letters, digits and low lines, with no digit in front. -/
def isName (s : String) : Bool :=
  match s.toList with
  | [] => false
  | c :: rest => isNameStart c && rest.all isNameRest

namespace OperationCall

def checkName (role : NameRole) (name : String) : Except CallError Unit :=
  if isName name then .ok () else .error (.invalidName role name)

def checkNames (c : OperationCall) : Except CallError Unit :=
  match checkName .operation c.name with
  | .error e => .error e
  | .ok () => Outcome.all (checkName .argument) c.argumentNames

/-- **The selection set of a call:** the caller's, or the one that its result's shape has. -/
def selectionText (cat : Catalogue) (c : OperationCall) : Except CallError String :=
  match c.selectionOverride with
  | some text => .ok text
  | none => (c.result.selectionSet cat).mapError .selection

/-- **The text of a call.**  Names are looked at first, then the selection set, then the numbers. -/
def document (cat : Catalogue) (c : OperationCall) : Except CallError String :=
  match c.checkNames with
  | .error e => .error e
  | .ok () =>
    match c.selectionText cat with
    | .error e => .error e
    | .ok selection =>
      match Variable.encodeAll c.arguments with
      | .error place => .error (.nonFinite place)
      | .ok arguments =>
        .ok (c.kind.keyword ++ "\x7b" ++ c.name ++ arguments ++ " " ++ selection ++ "\x7d")

end OperationCall

end GraphQLCall
