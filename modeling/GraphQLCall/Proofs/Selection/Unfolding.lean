import GraphQLCall.Call.SelectionSet
import GraphQLCall.Proofs.FieldPath
import Mathlib.Data.Set.Finite.Lattice
import Mathlib.Order.Lex

/-!
# Selection sets: the unfolding of a shape

A shape stands for a tree of fields, which need not be finite: a type that is looked up may lead
back to itself.  A place of the tree is a way of steps from the whole, each the index and the name
of a field with fields of its own.

* `Shape.Reaches`   the places of the unfolding, with the type names above them
* `Place.Before`   the order in which a walk meets them: a place before those below it, a field with
                   all below it before the fields that follow
* `Shape.Unfolds`   the unfolding as a finite tree
* `Shape.Flaw`, `Shape.FlawAt`   what keeps a place from having a selection set
* `Shape.FirstFlaw`   the flaw that a walk meets first
* `Shape.walk_induction`   induction along a walk that stops at names that are open
* `Shape.Coherent`   a type name determines the fields
-/

namespace GraphQLCall

/-- a way of steps, each the index and the name of a field -/
abbrev Place := List (Nat × String)

namespace Place

def names (p : Place) : List String := p.map Prod.snd

/-- **The order of a walk,** depth first and by index. -/
def Before (q p : Place) : Prop := q.map Prod.fst < p.map Prod.fst

theorem names_cons (i : Nat) (name : String) (p : Place) :
    names ((i, name) :: p) = name :: p.names := rfl

theorem not_before_nil (p : Place) : ¬ p.Before [] := by
  intro h
  exact List.not_lt_nil _ h

theorem before_cons_iff {i j : Nat} {m n : String} {q p : Place} :
    Before ((i, m) :: q) ((j, n) :: p) ↔ i < j ∨ i = j ∧ q.Before p :=
  List.cons_lt_cons_iff

end Place

namespace Shape

/-- **The places of the unfolding:** `Reaches cat s p above t` says that the way `p` leads from `s`
to `t` through fields that have fields, `above` being the type names passed, outermost first. -/
inductive Reaches (cat : Catalogue) : Shape → Place → List String → Shape → Prop
  | here (s : Shape) : Reaches cat s [] [] s
  | step {s f t : Shape} {typeName : Option String} {fields : List (String × Shape)} {i : Nat}
      {name : String} {p : Place} {above : List String} :
      s.innermost cat = .object typeName fields → fields[i]? = some (name, f) →
      f.isStructured cat = true → Reaches cat f p above t →
      Reaches cat s ((i, name) :: p) (typeName.toList ++ above) t

mutual

/-- **The unfolding as a finite tree.** -/
inductive Unfolds (cat : Catalogue) : Shape → List Selected → Prop
  | object {s : Shape} {typeName : Option String} {fields : List (String × Shape)}
      {tree : List Selected} :
      s.innermost cat = .object typeName fields → fields ≠ [] → UnfoldsAll cat fields tree →
      Unfolds cat s tree

inductive UnfoldsAll (cat : Catalogue) : List (String × Shape) → List Selected → Prop
  | nil : UnfoldsAll cat [] []
  | leaf {name : String} {f : Shape} {rest : List (String × Shape)} {trees : List Selected} :
      f.isStructured cat = false → UnfoldsAll cat rest trees →
      UnfoldsAll cat ((name, f) :: rest) (.leaf name :: trees)
  | nested {name : String} {f : Shape} {rest : List (String × Shape)} {below trees : List Selected} :
      f.isStructured cat = true → Unfolds cat f below → UnfoldsAll cat rest trees →
      UnfoldsAll cat ((name, f) :: rest) (.nested name below :: trees)

end

/-- **What keeps a place from having a selection set:** its type is open above it, it is an object
without fields, or it is no object. -/
inductive Flaw (cat : Catalogue) (above : List String) (path : FieldPath) (s : Shape) :
    SelectionError → Prop
  | reentered {name : String} {fields : List (String × Shape)} :
      s.innermost cat = .object (some name) fields → fields ≠ [] → name ∈ above →
      Flaw cat above path s (.cyclic path name)
  | hollow {typeName : Option String} :
      s.innermost cat = .object typeName [] → Flaw cat above path s (.empty path)
  | bare : (s.innermost cat).isObject = false → Flaw cat above path s (.empty path)

/-- a flaw at a place of a shape that stands at `path` below the type names `way` -/
def FlawBelow (cat : Catalogue) (way : List String) (path : FieldPath) (s : Shape) (p : Place)
    (e : SelectionError) : Prop :=
  ∃ above t, s.Reaches cat p above t ∧ t.Flaw cat (above ++ way) (path.descend p.names) e

/-- **A flaw at a place of the unfolding,** its path being the names on the way, joined by points. -/
def FlawAt (cat : Catalogue) (s : Shape) (p : Place) (e : SelectionError) : Prop :=
  ∃ above t, s.Reaches cat p above t ∧ t.Flaw cat above ⟨Text.join "." p.names⟩ e

/-- **The flaw that a walk meets first.** -/
def FirstFlaw (cat : Catalogue) (s : Shape) (e : SelectionError) : Prop :=
  ∃ p, s.FlawAt cat p e ∧ ∀ q e', s.FlawAt cat q e' → ¬ q.Before p

/-- **A type name determines the fields,** wherever it stands in the unfolding. -/
def Coherent (cat : Catalogue) (s : Shape) : Prop :=
  ∀ p above t q above' t' name fields fields', s.Reaches cat p above t → s.Reaches cat q above' t' →
    t.innermost cat = .object (some name) fields → t'.innermost cat = .object (some name) fields' →
    fields = fields'

/-- every field name of the unfolding has a property -/
def NamesAll (P : String → Prop) (cat : Catalogue) (s : Shape) : Prop :=
  ∀ p above t, s.Reaches cat p above t → ∀ f ∈ t.fields cat, P f.1

/-! ### walks -/

/-- **Induction along a walk:** what holds of an object that is not open if it holds of its fields
below its name, and of all other shapes, holds of every shape. -/
theorem walk_induction (cat : Catalogue) {motive : List String → Shape → Prop}
    (step : ∀ way s, (∀ typeName fields, s.innermost cat = .object typeName fields →
      isOpen typeName way = none → ∀ f ∈ fields, motive (openWith typeName way) f.2) → motive way s)
    (way : List String) (s : Shape) : motive way s := by
  apply step
  intro typeName fields object fresh f hf
  exact walk_induction cat step (openWith typeName way) f.2
termination_by (Catalogue.unopened way cat, sizeOf s)
decreasing_by
  have small : sizeOf f.2 < sizeOf fields := by
    have h1 := List.sizeOf_lt_of_mem hf
    obtain ⟨name, t⟩ := f
    simp only [Prod.mk.sizeOf_spec] at h1
    show sizeOf t < sizeOf fields
    omega
  rcases Prod.lex_def.mp (below_lt object fresh) with lt | ⟨eq, lt⟩
  · exact .left _ _ lt
  · exact Prod.lex_def.mpr (.inr ⟨eq, Nat.lt_trans small lt⟩)

section
variable {cat : Catalogue} {way : List String} {path : FieldPath} {s : Shape}
  {typeName : Option String} {fields : List (String × Shape)}

theorem selectedFields_of_bare (h : (s.innermost cat).isObject = false) :
    s.selectedFields cat way path = .error (.empty path) := by
  unfold selectedFields
  split
  · rename_i object
    rw [object] at h
    cases h
  · rfl

theorem selectedFields_of_hollow (h : s.innermost cat = .object typeName []) :
    s.selectedFields cat way path = .error (.empty path) := by
  unfold selectedFields
  split
  · rename_i object
    rw [h] at object
    cases object
    rfl
  · rfl

theorem selectedFields_of_open {name : String} (h : s.innermost cat = .object typeName fields)
    (hne : fields ≠ []) (hopen : isOpen typeName way = some name) :
    s.selectedFields cat way path = .error (.cyclic path name) := by
  unfold selectedFields
  split
  · rename_i object
    rw [h] at object
    cases object
    rw [if_neg (by simpa using hne)]
    split
    · rename_i hopen'
      rw [hopen] at hopen'
      cases hopen'
      rfl
    · rename_i fresh
      rw [hopen] at fresh
      cases fresh
  · rename_i noObject
    exact absurd h (noObject _ _)

theorem selectedFields_of_fresh (h : s.innermost cat = .object typeName fields)
    (hne : fields ≠ []) (fresh : isOpen typeName way = none) :
    s.selectedFields cat way path = selectAll cat (openWith typeName way) path fields := by
  rw [selectedFields]
  split
  · rename_i object
    rw [h] at object
    cases object
    rw [if_neg (by simpa using hne)]
    split
    · rename_i hopen
      rw [fresh] at hopen
      cases hopen
    · rfl
  · rename_i noObject
    exact absurd h (noObject _ _)

end

end Shape

end GraphQLCall
