import GraphQLCall.Value

/-!
# Types: typed data

* `Datum`   a piece of typed data
* `Datum.lower`   the value that it is sent as
-/

namespace GraphQLCall

open Number

/-- **A piece of typed data.**  A record has an entry for each of its fields, which says whether the
field is sent. -/
inductive Datum where
  | absent
  | int (n : Int)
  | single (x : Single)
  | double (x : Double)
  | bool (b : Bool)
  | char (c : Char)
  | text (s : String)
  | json (j : Json)
  | list (items : List Datum)
  | record (fields : List (String × Bool × Datum))
  | unit (variant : String)
  | variant (name : String) (content : Datum)
  | keyed (entries : List (String × Datum))

namespace Datum

mutual

/-- **The value that a piece of typed data is sent as.** -/
def lower : Datum → Value
  | .absent => .null
  | .int n => .int n
  | .single x => .float x.widen
  | .double x => .float x
  | .bool b => .bool b
  | .char c => .str (String.singleton c)
  | .text s => .str s
  | .json j => .ofJson j
  | .list items => .list (lowerItems items)
  | .record fields => .ofEntries (lowerFields fields)
  | .unit name => .str name
  | .variant _ content => lower content
  | .keyed entries => .ofEntries (lowerEntries entries)

def lowerItems : List Datum → List Value
  | [] => []
  | d :: rest => lower d :: lowerItems rest

def lowerFields : List (String × Bool × Datum) → List (String × Value)
  | [] => []
  | (name, sent, d) :: rest =>
    if sent then (name, lower d) :: lowerFields rest else lowerFields rest

def lowerEntries : List (String × Datum) → List (String × Value)
  | [] => []
  | (name, d) :: rest => (name, lower d) :: lowerEntries rest

end

end Datum

end GraphQLCall
