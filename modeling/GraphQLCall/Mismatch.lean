import GraphQLCall.Json.Writer
import GraphQLCall.Text.Shown

/-!
# Mismatch: data that is not what was expected

* `Step`   one step from a value to a part of it; `Step.renderAll` writes a way of steps
* `Kind`   what a JSON value is, in the words of the check against a shape
* `Found`   what a JSON value is, in the words of the decoder, with the value itself
* `Wanted`   what the decoder would have taken
* `Reason`   why a value was refused; `Reason.message` says it
* `Mismatch`   the way to the value that was refused, and the reason
-/

namespace GraphQLCall

open Number

/-- **One step from a value to a part of it:** an entry, an item, the content of a variant, or an
entry of a map whose keys are not texts. -/
inductive Step where
  | key (name : String)
  | index (i : Nat)
  | variant (name : String)
  | unnamed
  deriving DecidableEq

namespace Step

def render : Step → String
  | .key name => "." ++ name
  | .index i => "[" ++ toString i ++ "]"
  | .variant name => "." ++ name
  | .unnamed => ".?"

def renderAll : List Step → String
  | [] => ""
  | s :: rest => s.render ++ renderAll rest

end Step

/-- what a JSON value is, in the words of the check against a shape -/
inductive Kind where
  | null
  | boolean
  | float
  | integer
  | string
  | list
  | object
  deriving DecidableEq

namespace Kind

def describe : Kind → String
  | .null => "null"
  | .boolean => "a boolean"
  | .float => "a float"
  | .integer => "an integer"
  | .string => "a string"
  | .list => "a list"
  | .object => "an object"

end Kind

def Json.kind : Json → Kind
  | .null => .null
  | .bool _ => .boolean
  | .int _ => .integer
  | .float _ => .float
  | .str _ => .string
  | .arr _ => .list
  | .obj _ => .object

/-- what a JSON value is, in the words of the decoder -/
inductive Found where
  | null
  | boolean (b : Bool)
  | integer (n : Int)
  | float (x : Double)
  | string (s : String)
  | sequence
  | map
  | unitVariant

namespace Found

def ofJson : Json → Found
  | .null => .null
  | .bool b => .boolean b
  | .int n => .integer n
  | .float x => .float x
  | .str s => .string s
  | .arr _ => .sequence
  | .obj _ => .map

def ticked (s : String) : String := "\x60" ++ s ++ "\x60"

def describe : Found → String
  | .null => "null"
  | .boolean true => "boolean " ++ ticked "true"
  | .boolean false => "boolean " ++ ticked "false"
  | .integer n => "integer " ++ ticked (toString n)
  | .float x => "floating point " ++ ticked (Layout.data.render x)
  | .string s => "string " ++ Text.shown s
  | .sequence => "sequence"
  | .map => "map"
  | .unitVariant => "unit variant"

end Found

/-- what the decoder would have taken -/
inductive Wanted where
  | number (typeName : String)
  | boolean
  | string
  | character
  | sequence
  | map
  | struct (name : String)
  | unit
  | stringOrMap
  | singleEntry
  | newtypeVariant
  | structVariant

namespace Wanted

def describe : Wanted → String
  | .number typeName => typeName
  | .boolean => "a boolean"
  | .string => "a string"
  | .character => "a character"
  | .sequence => "a sequence"
  | .map => "a map"
  | .struct name => "struct " ++ name
  | .unit => "unit"
  | .stringOrMap => "string or map"
  | .singleEntry => "map with a single key"
  | .newtypeVariant => "newtype variant"
  | .structVariant => "struct variant"

end Wanted

/-- **Why a value was refused.** -/
inductive Reason where
  | notScalar (scalar : String) (found : Kind)
  | notList (found : Kind)
  | notObject (found : Kind)
  | wrongType (found : Found) (wanted : Wanted)
  /-- the decoder: a value of the kind wanted, but not one of its values -/
  | wrongValue (found : Found) (wanted : Wanted)
  | missingField (key : String)
  | unknownVariant (name : String) (known : List String)
  /-- the decoder: an array of `count` items with more of them than its struct has fields -/
  | tooManyItems (count : Nat)
  /-- the decoder: an array of `count` items with fewer of them than its struct has fields -/
  | tooFewItems (count : Nat) (name : String) (fields : Nat)

namespace Reason

open Found (ticked)

/-- the names that a variant could have had -/
def knownVariants : List String → String
  | [] => "there are no variants"
  | [a] => "expected " ++ ticked a
  | [a, b] => "expected " ++ ticked a ++ " or " ++ ticked b
  | all => "expected one of " ++ Text.join ", " (all.map ticked)

def message : Reason → String
  | .notScalar scalar found => "expected " ++ scalar ++ ", found " ++ found.describe
  | .notList found => "expected a list, found " ++ found.describe
  | .notObject found => "expected an object, found " ++ found.describe
  | .wrongType found wanted =>
    "invalid type: " ++ found.describe ++ ", expected " ++ wanted.describe
  | .wrongValue found wanted =>
    "invalid value: " ++ found.describe ++ ", expected " ++ wanted.describe
  | .missingField key => "missing field " ++ ticked key
  | .unknownVariant name known => "unknown variant " ++ ticked name ++ ", " ++ knownVariants known
  | .tooManyItems count =>
    "invalid length " ++ toString count ++ ", expected fewer elements in array"
  | .tooFewItems count name fields =>
    "invalid length " ++ toString count ++ ", expected struct " ++ name ++ " with " ++
      toString fields ++ (if fields = 1 then " element" else " elements")

end Reason

/-- **A value that was refused:** the way to it and the reason. -/
structure Mismatch where
  steps : List Step
  reason : Reason

namespace Mismatch

def here (reason : Reason) : Mismatch := ⟨[], reason⟩

/-- the outcome of a part, seen from the whole that it is one step away from -/
def within {α : Type} (s : Step) : Except Mismatch α → Except Mismatch α
  | .ok a => .ok a
  | .error m => .error ⟨s :: m.steps, m.reason⟩

/-- **The place of a mismatch,** below `root`.  A missing field is refused at its object, and its
place is where it would have been. -/
def place (root : String) (m : Mismatch) : String :=
  match m.reason with
  | .missingField key => root ++ Step.renderAll m.steps ++ "." ++ key
  | _ => root ++ Step.renderAll m.steps

end Mismatch

end GraphQLCall
