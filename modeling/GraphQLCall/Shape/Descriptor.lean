import GraphQLCall.Shape.Basic

/-!
# Shapes: descriptors

A descriptor is a shape written as JSON: an object for an object, an array of one element for a
list, the name of a kind for a scalar, and `null` or `true` for data of any kind.

* `DescriptorReason`, `DescriptorError`   why a descriptor was refused, and where
* `Shape.ofDescriptor`   the shape that a descriptor describes
-/

namespace GraphQLCall

open Found (ticked)

inductive DescriptorReason where
  | unknownKind (name : String)
  | notOneElement (count : Nat)
  | unsupported (value : Json)

namespace DescriptorReason

def message : DescriptorReason → String
  | .unknownKind name => "unknown scalar kind " ++ ticked name
  | .notOneElement count =>
    "list descriptors take exactly one element, found " ++ toString count
  | .unsupported value => "unsupported descriptor value " ++ ticked value.compact

end DescriptorReason

inductive DescriptorStep where
  | field (name : String)
  | element
  deriving DecidableEq

namespace DescriptorStep

def render : DescriptorStep → String
  | .field name => "." ++ name
  | .element => "[]"

def renderAll : List DescriptorStep → String
  | [] => ""
  | s :: rest => s.render ++ renderAll rest

end DescriptorStep

/-- **A part of a descriptor that was refused.** -/
structure DescriptorError where
  steps : List DescriptorStep
  reason : DescriptorReason

namespace DescriptorError

/-- the place of the part, the whole descriptor being `$` -/
def path (e : DescriptorError) : String := "$" ++ DescriptorStep.renderAll e.steps

def message (e : DescriptorError) : String :=
  "Invalid shape descriptor at " ++ ticked e.path ++ ": " ++ e.reason.message

/-- the outcome of a part, seen from the whole that it is one step away from -/
def within {α : Type} (s : DescriptorStep) : Except DescriptorError α → Except DescriptorError α
  | .ok a => .ok a
  | .error e => .error ⟨s :: e.steps, e.reason⟩

end DescriptorError

namespace Shape

mutual

/-- **The shape that a descriptor describes.** -/
def ofDescriptor : Json → Except DescriptorError Shape
  | .null => .ok (.scalar .any)
  | .bool true => .ok (.scalar .any)
  | .str name =>
    match ScalarKind.ofGraphQLName? name with
    | some kind => .ok (.scalar kind)
    | none => .error ⟨[], .unknownKind name⟩
  | .arr [element] =>
    match DescriptorError.within .element (ofDescriptor element) with
    | .ok inner => .ok (.list inner)
    | .error e => .error e
  | .arr items => .error ⟨[], .notOneElement items.length⟩
  | .obj entries =>
    match fieldsOfDescriptor entries with
    | .ok fields => .ok (record none fields)
    | .error e => .error e
  | j => .error ⟨[], .unsupported j⟩

def fieldsOfDescriptor : List (String × Json) → Except DescriptorError (List (String × Shape))
  | [] => .ok []
  | (name, j) :: rest =>
    match DescriptorError.within (.field name) (ofDescriptor j) with
    | .error e => .error e
    | .ok s =>
      match fieldsOfDescriptor rest with
      | .error e => .error e
      | .ok fields => .ok ((name, s) :: fields)

end

end Shape

end GraphQLCall
