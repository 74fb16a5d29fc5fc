import GraphQLCall.Types.Basic

/-!
# Shapes: what the data of a type looks like

* `Shape.record`   an object with its fields in order
* `Head`   a shape of which it is known whether it is a scalar, a list or an object
* `Shape.head`   a shape with the type it may stand for looked up
* `Shape.innermost`   the shape below all lists
* `Shape.describe`   a shape as a message shows it
* `Shape.fields`   the fields below all lists
* `field?`   the field with a name, by halving
-/

namespace GraphQLCall

/-- a shape of which it is known what it is -/
inductive Head where
  | scalar (kind : ScalarKind)
  | list (inner : Shape)
  | object (typeName : Option String) (fields : List (String × Shape))

namespace Head

def toShape : Head → Shape
  | .scalar kind => .scalar kind
  | .list inner => .list inner
  | .object typeName fields => .object typeName fields

def isObject : Head → Bool
  | .object _ _ => true
  | _ => false

def fields : Head → List (String × Shape)
  | .object _ fields => fields
  | _ => []

end Head

namespace Ty

def scalarKind : Ty → ScalarKind
  | .int _ => .int
  | .single | .double => .float
  | .bool => .boolean
  | .char | .text => .string
  | _ => .any

/-- the shape that a type declares -/
def head (cat : Catalogue) : Ty → Head
  | .option inner => head cat inner
  | .boxed inner => head cat inner
  | .list inner => .list (.deferred inner)
  | .declared name =>
    match cat.fields? name with
    | some fields => .object (some name) fields
    | none => .scalar .any
  | t => .scalar t.scalarKind

/-- a type without its wrappers and lists -/
def innermost : Ty → Ty
  | .option inner => innermost inner
  | .boxed inner => innermost inner
  | .list inner => innermost inner
  | t => t

def innermostHead (cat : Catalogue) (t : Ty) : Head := t.innermost.head cat

/-- a type as a message shows its shape -/
def describe (cat : Catalogue) : Ty → String
  | .option inner => describe cat inner
  | .boxed inner => describe cat inner
  | .list inner => "[" ++ describe cat inner ++ "]"
  | .declared name => if (cat.fields? name).isSome then name else ScalarKind.any.graphqlName
  | t => t.scalarKind.graphqlName

def shape (cat : Catalogue) (t : Ty) : Shape := (t.head cat).toShape

end Ty

namespace Shape

/-- **An object of the given fields,** whatever their order. -/
def record (typeName : Option String) (fields : List (String × Shape)) : Shape :=
  .object typeName (Entries.sort fields)

def head (cat : Catalogue) : Shape → Head
  | .scalar kind => .scalar kind
  | .list inner => .list inner
  | .object typeName fields => .object typeName fields
  | .deferred t => t.head cat

/-- **The shape below all lists.** -/
def innermost (cat : Catalogue) : Shape → Head
  | .scalar kind => .scalar kind
  | .list inner => innermost cat inner
  | .object typeName fields => .object typeName fields
  | .deferred t => t.innermostHead cat

def isStructured (cat : Catalogue) (s : Shape) : Bool := (s.innermost cat).isObject

/-- **A shape as a message shows it:** the names of types and scalars, lists in brackets. -/
def describe (cat : Catalogue) : Shape → String
  | .scalar kind => kind.graphqlName
  | .list inner => "[" ++ describe cat inner ++ "]"
  | .object (some name) _ => name
  | .object none _ => "\x7b..\x7d"
  | .deferred t => t.describe cat

def fields (cat : Catalogue) (s : Shape) : List (String × Shape) := (s.innermost cat).fields

end Shape

/-- the last place from `base` on, among `size` places, whose name is not above `name`; `base` if
there is none.  The places left are halved until there is one. -/
def lastNotAbove {α : Type} (fields : Array (String × α)) (name : String) (base size : Nat) : Nat :=
  if _h : size ≤ 1 then base
  else
    let half := size / 2
    let middle := base + half
    match fields[middle]? with
    | some f =>
      if name < f.1 then lastNotAbove fields name base (size - half)
      else lastNotAbove fields name middle (size - half)
    | none => base
termination_by size

/-- **The field with a name** among fields in ascending order of name; of several the last. -/
def field? {α : Type} (fields : List (String × α)) (name : String) : Option (String × α) :=
  let all := fields.toArray
  match all[lastNotAbove all name 0 all.size]? with
  | some f => if f.1 = name then some f else none
  | none => none

end GraphQLCall
