import GraphQLCall.Mismatch
import GraphQLCall.Record.Rename

/-!
# Records: attributes

Attributes are written in groups; of those under the name `serde` the ones that bear on a field's
name, or on whether it is read or sent, are kept.

* `AttrLiteral`, `AttrArgument`, `Attr`, `AttrGroup`   attributes as they are written
* `AttrError`   why attributes are refused; `AttrError.message` says it
* `Attributes`   what the attributes of an item or a field say
* `Attributes.ofGroups`   the attributes that groups say
-/

namespace GraphQLCall

open Found (ticked)

/-- a literal: a text, or anything else -/
inductive AttrLiteral where
  | text (s : String)
  | other

inductive AttrArgument where
  | none
  | value (literal : AttrLiteral)
  | list (entries : List (String × AttrLiteral))

structure Attr where
  name : String
  argument : AttrArgument

structure AttrGroup where
  name : String
  attrs : List Attr

/-- **Why attributes are refused.** -/
inductive AttrError where
  | textExpected
  | parenthesesExpected (atEnd : Bool)
  | entryExpected
  | commaExpected
  | unreadTokens
  | unknownForm
  | unknownRule (text : String)
  | unnamedFields
  deriving DecidableEq

namespace AttrError

def message : AttrError → String
  | .textExpected => "expected string literal"
  | .parenthesesExpected true => "unexpected end of input, expected parentheses"
  | .parenthesesExpected false => "expected parentheses"
  | .entryExpected => "unexpected end of input, expected nested attribute"
  | .commaExpected => "expected " ++ ticked ","
  | .unreadTokens => "unexpected token, expected " ++ ticked ")"
  | .unknownForm => "expected " ++ ticked "serialize" ++ " or " ++ ticked "deserialize"
  | .unknownRule text =>
    ticked "FieldEnumerable" ++ " does not support " ++
      ticked ("rename_all = \"" ++ text ++ "\"") ++
      "; expected one of camelCase, PascalCase, snake_case, lowercase"
  | .unnamedFields =>
    ticked "FieldEnumerable" ++ " can only be derived for structs with named fields"

end AttrError

/-- **What the attributes of an item or a field say.**  `unread` notes an argument that was passed
over with something in it. -/
structure Attributes where
  rename : Option String
  renameAll : Option RenameRule
  skip : Bool
  skipRead : Bool
  skipSend : Bool
  hasDefault : Bool
  unread : Bool

namespace Attributes

def empty : Attributes := ⟨none, none, false, false, false, false, false⟩

def inShape (a : Attributes) : Bool := !a.skip && !a.skipRead

def inValue (a : Attributes) : Bool := !a.skip && !a.skipSend

/-- the name for reading in a list of names, `found` being the last one so far -/
def readName (found : Option String) :
    List (String × AttrLiteral) → Except AttrError (Option String)
  | [] => .ok found
  | (_, .other) :: _ => .error .textExpected
  | (form, .text s) :: rest =>
    if form = "deserialize" then readName (some s) rest
    else if form = "serialize" then readName found rest
    else .error .unknownForm

/-- **The name that an attribute gives for reading,** if it gives one. -/
def nameGiven (argument : AttrArgument) (atEnd : Bool) : Except AttrError (Option String) :=
  match argument with
  | .value (.text s) => .ok (some s)
  | .value .other => .error .textExpected
  | .list [] => .error .entryExpected
  | .list entries => readName none entries
  | .none => .error (.parenthesesExpected atEnd)

def flag (a : Attributes) (argument : AttrArgument) : Except AttrError Attributes :=
  match argument with
  | .none => .ok a
  | _ => .error .commaExpected

/-- one more attribute, the last of its group if `atEnd` says so -/
def add (a : Attributes) (attr : Attr) (atEnd : Bool) : Except AttrError Attributes :=
  if attr.name = "rename" then
    match nameGiven attr.argument atEnd with
    | .error e => .error e
    | .ok none => .ok a
    | .ok (some s) => .ok { a with rename := some s }
  else if attr.name = "rename_all" then
    match nameGiven attr.argument atEnd with
    | .error e => .error e
    | .ok none => .ok a
    | .ok (some s) =>
      match RenameRule.ofText? s with
      | some rule => .ok { a with renameAll := some rule }
      | none => .error (.unknownRule s)
  else if attr.name = "skip" then flag { a with skip := true } attr.argument
  else if attr.name = "skip_deserializing" then flag { a with skipRead := true } attr.argument
  else if attr.name = "skip_serializing" then flag { a with skipSend := true } attr.argument
  else
    let a := if attr.name = "default" then { a with hasDefault := true } else a
    match attr.argument with
    | .list (_ :: _) => .ok { a with unread := true }
    | _ => .ok a

def addAll (a : Attributes) : List Attr → Except AttrError Attributes
  | [] => if a.unread then .error .unreadTokens else .ok a
  | attr :: rest =>
    match add a attr rest.isEmpty with
    | .error e => .error e
    | .ok a => addAll a rest

/-- the attributes of groups, those under other names being passed over -/
def addGroups (a : Attributes) : List AttrGroup → Except AttrError Attributes
  | [] => .ok a
  | g :: rest =>
    if g.name = "serde" then
      match addAll a g.attrs with
      | .error e => .error e
      | .ok a => addGroups a rest
    else addGroups a rest

/-- **The attributes that groups say.** -/
def ofGroups (groups : List AttrGroup) : Except AttrError Attributes := addGroups empty groups

end Attributes

end GraphQLCall
