import GraphQLCall.Entries
import GraphQLCall.Number.Layout

/-!
# JSON: the data

* `Json`   a JSON value; an object holds its entries in strictly ascending order of name
* `Json.entry?`   the entry of an object
* `Json.leastInt`, `Json.greatestInt`, `Json.greatestNat`   the bounds of the integers of 64 bits
-/

namespace GraphQLCall

open Number

/-- **A JSON value.**  A number is an integer when it is written as one and fits 64 bits, signed or
unsigned, and a floating point number otherwise. -/
inductive Json where
  | null
  | bool (b : Bool)
  | int (n : Int)
  | float (x : Double)
  | str (s : String)
  | arr (items : List Json)
  | obj (entries : List (String × Json))

namespace Json

def ofEntries (entries : List (String × Json)) : Json := .obj (Entries.ofList entries)

/-- the entry of an object under a name; what is no object has none -/
def entry? (name : String) : Json → Option Json
  | .obj entries => Entries.find? name entries
  | _ => none

def isNull : Json → Bool
  | .null => true
  | _ => false

def leastInt : Int := -0x8000000000000000

def greatestInt : Int := 0x7FFFFFFFFFFFFFFF

def greatestNat : Int := 0xFFFFFFFFFFFFFFFF

end Json

end GraphQLCall
