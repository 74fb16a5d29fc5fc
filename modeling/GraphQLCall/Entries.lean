/-!
# Entries: values under names, in ascending order of name

An object is a list of entries in strictly ascending order of name (by code point, which is also the
order of the octets).  A record type instead keeps all the fields it is given and only sorts them.

* `insert`   an entry added, or bound anew
* `ofList`   the object that a list of entries spells: of a repeated name the last one holds
* `find?`   the value under a name
* `sort`   all entries in ascending order of name, those of one name in the order given
-/

namespace GraphQLCall.Entries

variable {α : Type}

/-- **An entry added,** or bound anew if the name is there already. -/
def insert (name : String) (value : α) : List (String × α) → List (String × α)
  | [] => [(name, value)]
  | (n, v) :: rest =>
    if name < n then (name, value) :: (n, v) :: rest
    else if name = n then (name, value) :: rest
    else (n, v) :: insert name value rest

/-- **The object that a list of entries spells.**  Of a repeated name the last entry holds. -/
def ofList (entries : List (String × α)) : List (String × α) :=
  entries.foldl (fun es e => insert e.1 e.2 es) []

def find? (name : String) : List (String × α) → Option α
  | [] => none
  | (n, v) :: rest => if n = name then some v else find? name rest

theorem mem_of_find? {name : String} {a : α} {entries : List (String × α)}
    (h : find? name entries = some a) : (name, a) ∈ entries := by
  induction entries with
  | nil => cases h
  | cons entry rest ih =>
    obtain ⟨n, b⟩ := entry
    rw [find?] at h
    split at h
    · rename_i hn
      cases h
      exact hn ▸ List.mem_cons_self
    · exact List.mem_cons_of_mem _ (ih h)

theorem find?_eq_none_iff {name : String} {entries : List (String × α)} :
    find? name entries = none ↔ ∀ e ∈ entries, e.1 ≠ name := by
  induction entries with
  | nil => simp [find?]
  | cons entry rest ih =>
    obtain ⟨n, b⟩ := entry
    rw [find?, List.forall_mem_cons]
    by_cases hn : n = name
    · simp [hn]
    · simp [hn, ih]

/-- whether the name of an entry is not above that of another one -/
def nameLe (e f : String × α) : Bool := e.1 ≤ f.1

/-- **All entries in ascending order of name,** those of one name in the order given. -/
def sort (entries : List (String × α)) : List (String × α) := entries.mergeSort nameLe

/-- a name added to a list of distinct names in ascending order -/
def insertName (name : String) : List String → List String
  | [] => [name]
  | n :: rest =>
    if name < n then name :: n :: rest
    else if name = n then n :: rest
    else n :: insertName name rest

end GraphQLCall.Entries
