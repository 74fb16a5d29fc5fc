import GraphQLCall.FieldPath
import GraphQLCall.Shape.Basic

/-!
# Calls: the selection set of a result

A call asks for every field of its result, down to the fields without fields of their own.  A type
that contains itself has no such bottom, and is refused at the place where it is met again.

* `Selected`   a field that is asked for, with the fields below it
* `Selected.renderSet`   the text of a selection set
* `SelectionError`   why a shape has no selection set
* `Catalogue.unopened`   how many names of a catalogue are not on a way; it bounds the walk
* `Shape.selectedFields`   the fields of a selection set
* `Shape.selectionSet`   the text of the selection set that a shape has
-/

namespace GraphQLCall

open Found (ticked)

/-- **A field that is asked for,** with the fields below it if it has any. -/
inductive Selected where
  | leaf (name : String)
  | nested (name : String) (below : List Selected)

namespace Selected

mutual

def render : Selected → String
  | .leaf name => name
  | .nested name below => name ++ " \x7b" ++ renderAll below ++ "\x7d"

def renderAll : List Selected → String
  | [] => ""
  | [s] => render s
  | s :: rest => render s ++ " " ++ renderAll rest

end

/-- **The text of a selection set.** -/
def renderSet (below : List Selected) : String := "\x7b" ++ renderAll below ++ "\x7d"

end Selected

/-- why a shape has no selection set: a type contains itself, or there is nothing to ask for -/
inductive SelectionError where
  | cyclic (path : FieldPath) (typeName : String)
  | empty (path : FieldPath)
  deriving DecidableEq

namespace SelectionError

def message : SelectionError → String
  | .cyclic path typeName =>
    "Type " ++ ticked typeName ++ " contains itself at " ++ ticked path.shown ++
      ", so its selection set would never terminate. Supply a selection set override instead."
  | .empty path =>
    "No fields to select at " ++ ticked path.shown ++
      ": a selection set must request at least one field"

end SelectionError

namespace Catalogue

/-- **How many entries of a catalogue have names that are not on a way.** -/
def unopened (way : List String) : Catalogue → Nat
  | [] => 0
  | (name, _) :: rest => (if name ∈ way then 0 else 1) + unopened way rest

theorem mem_of_fields? {cat : Catalogue} {name : String} {fields : List (String × Shape)}
    (h : cat.fields? name = some fields) : ∃ d, (name, d) ∈ cat := by
  unfold fields? find? at h
  split at h
  · exact ⟨_, Entries.mem_of_find? ‹_›⟩
  · exact ⟨_, Entries.mem_of_find? ‹_›⟩
  · cases h

theorem unopened_cons_le (name : String) (way : List String) (cat : Catalogue) :
    unopened (name :: way) cat ≤ unopened way cat := by
  induction cat with
  | nil => exact Nat.le_refl 0
  | cons entry rest ih => grind [unopened]

/-- **A step to a declared object that is not on the way** leaves fewer names. -/
theorem unopened_cons_lt {cat : Catalogue} {name : String} {way : List String}
    {fields : List (String × Shape)} (declared : cat.fields? name = some fields)
    (fresh : name ∉ way) : unopened (name :: way) cat < unopened way cat := by
  obtain ⟨d, member⟩ := mem_of_fields? declared
  clear declared
  induction cat with
  | nil => cases member
  | cons entry rest ih =>
    have rest_le := unopened_cons_le name way rest
    grind [unopened]

end Catalogue

theorem Ty.fields?_of_head {cat : Catalogue} {t : Ty} {typeName : Option String}
    {fields : List (String × Shape)} (h : t.head cat = .object typeName fields) :
    ∃ name, typeName = some name ∧ cat.fields? name = some fields := by
  induction t with
  | option inner ih => exact ih h
  | boxed inner ih => exact ih h
  | declared name =>
    unfold Ty.head at h
    split at h
    · cases h
      exact ⟨name, rfl, ‹_›⟩
    · cases h
  | _ => cases h

namespace Shape

def openWith (typeName : Option String) (way : List String) : List String :=
  match typeName with
  | some name => name :: way
  | none => way

/-- whether an object's type contains itself here -/
def isOpen (typeName : Option String) (way : List String) : Option String :=
  match typeName with
  | some name => if name ∈ way then some name else none
  | none => none

theorem innermost_object {cat : Catalogue} {s : Shape} {typeName : Option String}
    {fields : List (String × Shape)} (h : s.innermost cat = .object typeName fields) :
    sizeOf fields < sizeOf s ∨ ∃ name, typeName = some name ∧ cat.fields? name = some fields := by
  induction s using Shape.innermost.induct with
  | case1 kind => cases h
  | case2 inner ih =>
    refine (ih h).imp (fun lt => ?_) id
    exact Nat.lt_trans lt (by simp)
  | case3 name entries =>
    cases h
    refine .inl ?_
    rw [Shape.object.sizeOf_spec]
    omega
  | case4 t => exact .inr (Ty.fields?_of_head h)

/-- **A step below an object that is not open** leaves fewer names, or as many and a smaller shape. -/
theorem below_lt {cat : Catalogue} {way : List String} {s : Shape} {typeName : Option String}
    {fields : List (String × Shape)} (object : s.innermost cat = .object typeName fields)
    (fresh : isOpen typeName way = none) :
    Prod.Lex (· < ·) (· < ·) (Catalogue.unopened (openWith typeName way) cat, sizeOf fields)
      (Catalogue.unopened way cat, sizeOf s) := by
  have le : Catalogue.unopened (openWith typeName way) cat ≤ Catalogue.unopened way cat := by
    cases typeName with
    | none => exact Nat.le_refl _
    | some name => exact Catalogue.unopened_cons_le name way cat
  rcases innermost_object object with smaller | ⟨name, rfl, declared⟩
  · rcases Nat.lt_or_eq_of_le le with lt | eq
    · exact .left _ _ lt
    · rw [eq]
      exact .right _ smaller
  · have notOpen : name ∉ way := by
      intro opened
      simp [isOpen, opened] at fresh
    exact .left _ _ (Catalogue.unopened_cons_lt declared notOpen)

mutual

/-- **The fields of the selection set of a shape** at a place, `way` holding the type names that are
open there. -/
def selectedFields (cat : Catalogue) (way : List String) (path : FieldPath) (s : Shape) :
    Except SelectionError (List Selected) :=
  match _object : s.innermost cat with
  | .object typeName fields =>
    if fields.isEmpty then .error (.empty path)
    else
      match _fresh : isOpen typeName way with
      | some name => .error (.cyclic path name)
      | none => selectAll cat (openWith typeName way) path fields
  | _ => .error (.empty path)
termination_by (Catalogue.unopened way cat, sizeOf s)
decreasing_by exact below_lt _object _fresh

def selectAll (cat : Catalogue) (way : List String) (path : FieldPath)
    (fields : List (String × Shape)) : Except SelectionError (List Selected) :=
  match fields with
  | [] => .ok []
  | (name, s) :: rest =>
    if s.isStructured cat then
      match selectedFields cat way (path.child name) s with
      | .error e => .error e
      | .ok below =>
        match selectAll cat way path rest with
        | .error e => .error e
        | .ok selected => .ok (.nested name below :: selected)
    else
      match selectAll cat way path rest with
      | .error e => .error e
      | .ok selected => .ok (.leaf name :: selected)
termination_by (Catalogue.unopened way cat, sizeOf fields)
decreasing_by
  all_goals
    apply Prod.Lex.right
    simp only [List.cons.sizeOf_spec, Prod.mk.sizeOf_spec]
    omega

end

/-- **The text of the selection set that a shape has.** -/
def selectionSet (cat : Catalogue) (s : Shape) : Except SelectionError String :=
  (selectedFields cat [] .root s).map Selected.renderSet

end Shape

end GraphQLCall
