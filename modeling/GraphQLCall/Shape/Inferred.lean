import GraphQLCall.Shape.Basic

/-!
# Shapes: the shape of a value

* `Shape.ofValue`   the shape that a value has; a list takes after its first element but null
-/

namespace GraphQLCall.Shape

mutual

/-- **The shape that a value has.** -/
def ofValue : Value → Shape
  | .null => .scalar .any
  | .bool _ => .scalar .boolean
  | .int _ => .scalar .int
  | .float _ => .scalar .float
  | .str _ => .scalar .string
  | .list items => .list (ofFirst items)
  | .object entries => record none (ofEntries entries)

def ofFirst : List Value → Shape
  | [] => .scalar .any
  | .null :: rest => ofFirst rest
  | v :: _ => ofValue v

def ofEntries : List (String × Value) → List (String × Shape)
  | [] => []
  | (name, v) :: rest => (name, ofValue v) :: ofEntries rest

end

end GraphQLCall.Shape
