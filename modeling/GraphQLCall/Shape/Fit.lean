import GraphQLCall.Outcome
import GraphQLCall.Shape.Basic

/-!
# Shapes: whether data fits

* `Shape.fit`   the check of data against a shape: null fits everywhere, and a field that the data
  does not have is not looked at
-/

namespace GraphQLCall.Shape

/-- data against a shape, its parts not being looked at -/
def fitLeaf (h : Head) (j : Json) : Except Mismatch Unit :=
  match h with
  | .scalar kind =>
    if kind.accepts j then .ok () else .error (.here (.notScalar kind.graphqlName j.kind))
  | .list _ => .error (.here (.notList j.kind))
  | .object _ _ => .error (.here (.notObject j.kind))

mutual

/-- **The check of data against a shape:** the first part that does not fit, an object's entries
being taken in ascending order of key and a list's elements in their order. -/
def fit (cat : Catalogue) (s : Shape) : Json → Except Mismatch Unit
  | .null => .ok ()
  | .arr items =>
    match s.head cat with
    | .list inner => fitItems cat inner 0 items
    | h => fitLeaf h (.arr items)
  | .obj entries =>
    match s.head cat with
    | .object _ fields => fitEntries cat fields entries
    | h => fitLeaf h (.obj entries)
  | j => fitLeaf (s.head cat) j

def fitItems (cat : Catalogue) (s : Shape) (i : Nat) : List Json → Except Mismatch Unit
  | [] => .ok ()
  | j :: rest =>
    match Mismatch.within (.index i) (fit cat s j) with
    | .error m => .error m
    | .ok () => fitItems cat s (i + 1) rest

/-- the entries of an object, each against all fields of its name -/
def fitEntries (cat : Catalogue) (fields : List (String × Shape)) :
    List (String × Json) → Except Mismatch Unit
  | [] => .ok ()
  | (k, j) :: rest =>
    match Mismatch.within (.key k)
        (Outcome.all (fun f => fit cat f.2 j) (fields.filter fun f => f.1 = k)) with
    | .error m => .error m
    | .ok () => fitEntries cat fields rest

end

end GraphQLCall.Shape
