import GraphQLCall.FieldPath
import GraphQLCall.Shape.Inferred

/-!
# Calls: variables

* `Markers`   what is said about how an argument is written
* `Variable`   an argument: its name, its value, its declared shape and its markers
* `Variable.argumentName`   the name that it is written under
-/

namespace GraphQLCall

/-- **What is said about how an argument is written:** another name for it; the places of the fields
to be left out, in ascending order; and whether its strings are written as they are. -/
structure Markers where
  otherName : Option String
  ignored : List String
  raw : Bool
  deriving DecidableEq

namespace Markers

def default : Markers := ⟨none, [], false⟩

def ignore (m : Markers) (path : String) : Markers :=
  { m with ignored := Entries.insertName path m.ignored }

def isIgnored (m : Markers) (path : FieldPath) : Bool := m.ignored.contains path.text

end Markers

/-- **An argument of a call.** -/
structure Variable where
  name : String
  value : Value
  declared : Shape
  markers : Markers

namespace Variable

def plain (name : String) (value : Value) (declared : Shape) : Variable :=
  ⟨name, value, declared, .default⟩

def inferred (name : String) (value : Value) : Variable := plain name value (.ofValue value)

/-- **The name that an argument is written under.** -/
def argumentName (v : Variable) : String := v.markers.otherName.getD v.name

end Variable

end GraphQLCall
