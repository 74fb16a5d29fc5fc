/-!
# Field paths

The place of a field inside a value or a result: the names on the way to it, joined by points.

* `FieldPath`   a path as text
* `FieldPath.root`   the place of the whole
* `FieldPath.child`   the place of a field of the object at a path
* `FieldPath.segments`   the names on the way
-/

namespace GraphQLCall

/-- **A place inside a value,** as text. -/
structure FieldPath where
  text : String
  deriving DecidableEq

namespace FieldPath

def root : FieldPath := ⟨""⟩

def isRoot (p : FieldPath) : Bool := p.text = ""

/-- **The place of the field `name` of the object at `p`.** -/
def child (p : FieldPath) (name : String) : FieldPath :=
  if p.isRoot then ⟨name⟩ else ⟨p.text ++ "." ++ name⟩

/-- the parts of `cs` between the points, the first of them behind what `part` holds in reverse -/
def splitAtPoints (part : List Char) : List Char → List (List Char)
  | [] => [part.reverse]
  | c :: rest =>
    if c = '.' then part.reverse :: splitAtPoints [] rest else splitAtPoints (c :: part) rest

/-- **The names on the way,** an empty one being none. -/
def segments (p : FieldPath) : List String :=
  ((splitAtPoints [] p.text.toList).filter (· ≠ [])).map String.ofList

/-- the path as a message shows it -/
def shown (p : FieldPath) : String := if p.isRoot then "<root>" else p.text

end FieldPath

end GraphQLCall
