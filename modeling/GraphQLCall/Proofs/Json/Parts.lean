import GraphQLCall.Json.Basic

/-!
# JSON: parts of data

* `Json.Child`, `Json.induction`   what holds of all data whose parts it holds of holds of all data
* `Json.depth`, `Json.Child.depth_lt`   how deep data goes
* `Json.at?`   the data that a way of keys leads to
-/

namespace GraphQLCall

namespace Json

/-- **The parts of data:** the items of an array, and what an object has under its keys. -/
inductive Child : Json → Json → Prop
  | item {items : List Json} {j : Json} : j ∈ items → Child (.arr items) j
  | entry {entries : List (String × Json)} {key : String} {j : Json} :
      (key, j) ∈ entries → Child (.obj entries) j

theorem Child.sizeOf_lt {j j' : Json} (h : j.Child j') : sizeOf j' < sizeOf j := by
  cases h with
  | item h =>
    have hlt := List.sizeOf_lt_of_mem h
    rw [Json.arr.sizeOf_spec]
    omega
  | entry h =>
    have hlt := List.sizeOf_lt_of_mem h
    rw [Prod.mk.sizeOf_spec] at hlt
    rw [Json.obj.sizeOf_spec]
    omega

/-- **Induction over data:** what holds of all data whose parts it holds of holds of all data. -/
@[elab_as_elim]
theorem induction {P : Json → Prop} (step : ∀ j, (∀ j', j.Child j' → P j') → P j) (j : Json) :
    P j :=
  step j fun j' _child => induction step j'
termination_by sizeOf j
decreasing_by exact _child.sizeOf_lt

mutual

/-- **How deep data goes:** how many arrays and objects stand one inside the other at most. -/
def depth : Json → Nat
  | .arr items => depthOfItems items + 1
  | .obj entries => depthOfEntries entries + 1
  | _ => 0

def depthOfItems : List Json → Nat
  | [] => 0
  | j :: rest => max (depth j) (depthOfItems rest)

def depthOfEntries : List (String × Json) → Nat
  | [] => 0
  | (_, j) :: rest => max (depth j) (depthOfEntries rest)

end

theorem depth_le_of_mem {j : Json} {items : List Json} (h : j ∈ items) :
    j.depth ≤ depthOfItems items := by
  induction items with
  | nil => cases h
  | cons i rest ih =>
    rw [depthOfItems]
    rcases List.mem_cons.mp h with rfl | h
    · exact Nat.le_max_left _ _
    · exact Nat.le_trans (ih h) (Nat.le_max_right _ _)

theorem depth_le_of_mem_entries {key : String} {j : Json} {entries : List (String × Json)}
    (h : (key, j) ∈ entries) : j.depth ≤ depthOfEntries entries := by
  induction entries with
  | nil => cases h
  | cons entry rest ih =>
    obtain ⟨k, i⟩ := entry
    rw [depthOfEntries]
    rcases List.mem_cons.mp h with heq | h
    · cases heq
      exact Nat.le_max_left _ _
    · exact Nat.le_trans (ih h) (Nat.le_max_right _ _)

/-- **Parts of data go less deep.** -/
theorem Child.depth_lt {j j' : Json} (h : j.Child j') : j'.depth < j.depth := by
  cases h with
  | item h =>
    rw [depth]
    exact Nat.lt_succ_of_le (depth_le_of_mem h)
  | entry h =>
    rw [depth]
    exact Nat.lt_succ_of_le (depth_le_of_mem_entries h)

/-- **The data that a way of keys leads to,** through objects that have them. -/
def at? : List String → Json → Option Json
  | [], j => some j
  | key :: rest, j => (j.entry? key).bind (at? rest)

theorem at?_append (way more : List String) (j : Json) :
    j.at? (way ++ more) = (j.at? way).bind (at? more) := by
  induction way generalizing j with
  | nil => rfl
  | cons key rest ih =>
    rw [List.cons_append, at?, at?, Option.bind_assoc]
    exact congrArg _ (funext ih)

theorem at?_singleton (key : String) (j : Json) : j.at? [key] = j.entry? key := by
  rw [at?]
  cases j.entry? key <;> rfl

end Json

end GraphQLCall
