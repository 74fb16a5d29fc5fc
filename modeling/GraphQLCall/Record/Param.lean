import GraphQLCall.Record.Nesting

/-!
# Records: the parameters of an item

* `Param`   a parameter of an item
* `Param.ofTokens?`   the parameter that tokens spell
* `Param.ofTexts`   the parameters between the angle brackets of an item
-/

namespace GraphQLCall

/-- **A parameter of an item:** a lifetime, a constant or a type. -/
inductive Param where
  | lifetime (name : String)
  | constant (name : String)
  | type (name : String)
  deriving DecidableEq

namespace Param

def name : Param → String
  | .lifetime name => name
  | .constant name => name
  | .type name => name

def isLifetime : Param → Bool
  | .lifetime _ => true
  | _ => false

def typeName? : Param → Option String
  | .type name => some name
  | _ => none

/-- the tokens behind attributes, `depth` brackets of which are open -/
def behindAttributes : (depth : Nat) → List Token → List Token
  | _, [] => []
  | 0, t :: rest =>
    if t = .mark "#" then behindAttributes 0 rest
    else if t = .mark "[" then behindAttributes 1 rest
    else t :: rest
  | depth + 1, t :: rest =>
    if t = .mark "[" then behindAttributes (depth + 2) rest
    else if t = .mark "]" then behindAttributes depth rest
    else behindAttributes (depth + 1) rest

/-- **The parameter that tokens spell,** less its attributes, its bounds and its default. -/
def ofTokens? (tokens : List Token) : Option Param :=
  match behindAttributes 0 tokens with
  | .lifetime name :: _ => some (.lifetime name)
  | .word first :: .word second :: _ =>
    if first = "const" then some (.constant second) else some (.type first)
  | .word name :: _ => some (.type name)
  | _ => none

/-- **The parameters between the angle brackets of an item,** each with whether a comma stands
behind it. -/
def ofTexts (texts : List String) : List (Param × Bool) :=
  (partsOfList (Text.join "," texts)).filterMap fun p =>
    (ofTokens? p.1).map fun param => (param, p.2)

end Param

end GraphQLCall
