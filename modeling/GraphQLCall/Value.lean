import GraphQLCall.Json.Basic

/-!
# Value: what an argument holds

* `Value`   an argument's value; an object holds its entries in strictly ascending order of name
* `Value.ofEntries`   the object that a list of entries spells
* `Value.ofJson`   the value of JSON data
* `Value.fields`   the entries of an object; what is no object has none
-/

namespace GraphQLCall

open Number

/-- **An argument's value.**  `null` marks what is absent. -/
inductive Value where
  | null
  | bool (b : Bool)
  | int (n : Int)
  | float (x : Double)
  | str (s : String)
  | list (items : List Value)
  | object (entries : List (String × Value))

namespace Value

def ofEntries (entries : List (String × Value)) : Value := .object (Entries.ofList entries)

def isNull : Value → Bool
  | .null => true
  | _ => false

/-- the entries of an object, in ascending order of name; what is no object has none -/
def fields : Value → List (String × Value)
  | .object entries => entries
  | _ => []

def text? : Value → Option String
  | .str s => some s
  | _ => none

def kindName : Value → String
  | .null => "null"
  | .bool _ => "boolean"
  | .int _ => "int"
  | .float _ => "float"
  | .str _ => "string"
  | .list _ => "list"
  | .object _ => "object"

/-- the value of an integer: beyond 64 bits with a sign, the floating point number nearest to it -/
def ofInteger (n : Int) : Value :=
  if Json.leastInt ≤ n ∧ n ≤ Json.greatestInt then .int n else .float (Binary.ofInt n)

mutual

/-- **The value of JSON data.** -/
def ofJson : Json → Value
  | .null => .null
  | .bool b => .bool b
  | .int n => ofInteger n
  | .float x => .float x
  | .str s => .str s
  | .arr items => .list (ofItems items)
  | .obj entries => .object (ofJsonEntries entries)

def ofItems : List Json → List Value
  | [] => []
  | j :: rest => ofJson j :: ofItems rest

def ofJsonEntries : List (String × Json) → List (String × Value)
  | [] => []
  | (k, j) :: rest => (k, ofJson j) :: ofJsonEntries rest

end

end Value

end GraphQLCall
