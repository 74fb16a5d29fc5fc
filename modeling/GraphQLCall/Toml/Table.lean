import GraphQLCall.Json.Basic

/-!
# TOML: the tables of a text

A text builds its tables line by line, and a table may be filled from several places only if each
of them is the right one: a table with a header of its own takes no second header and no dotted key
from outside, and a value is never opened again.

* `Origin`   how a table came to be
* `Node`, `Table`   what a text has built so far
* `Table.set`   an entry under a dotted key
* `Table.within`   a change to the table that a path leads to
* `Table.openTable`, `openNext`   the headers of a table and of one more table of a list
* `Table.toJson`   the finished data
-/

namespace GraphQLCall.Toml

/-- how a table came to be: on the way to that of a header, by a dotted key, by its own header -/
inductive Origin where
  | implied
  | dotted
  | header
  deriving DecidableEq

/-- **What a name stands for:** a value, a table, or a list of tables, of which only the last one,
given first, is still open. -/
inductive Node where
  | value (j : Json)
  | table (origin : Origin) (entries : List (String × Node))
  | tables (last : List (String × Node)) (before : List (List (String × Node)))

abbrev Table := List (String × Node)

mutual

def Node.toJson : Node → Json
  | .value j => j
  | .table _ entries => .obj (jsonEntries entries)
  | .tables last before => .arr (jsonTables before [.obj (jsonEntries last)])

def jsonEntries : List (String × Node) → List (String × Json)
  | [] => []
  | (k, n) :: rest => (k, n.toJson) :: jsonEntries rest

/-- the tables of a list, the last one first, put before the data of later ones -/
def jsonTables : List (List (String × Node)) → List Json → List Json
  | [], later => later
  | t :: before, later => jsonTables before (.obj (jsonEntries t) :: later)

end

namespace Table

def toJson (t : Table) : Json := .obj (jsonEntries t)

/-- **An entry under a dotted key.**  The key's tables arise on the way.  It may go through a table
that is only implied, but not end in one, and it adds nothing to a table that has a header. -/
def set (j : Json) (name : String) : List String → Table → Option Table
  | [], t => if (Entries.find? name t).isSome then none else some (Entries.insert name (.value j) t)
  | k :: path, t =>
    match Entries.find? k t with
    | none => do
      let inner ← set j name path []
      some (Entries.insert k (.table .dotted inner) t)
    | some (.table origin inner) =>
      if origin = .header ∨ (origin = .implied ∧ path = []) then none
      else do
        let inner ← set j name path inner
        some (Entries.insert k (.table origin inner) t)
    | some (.tables last before) =>
      if path = [] then none
      else do
        let last ← set j name path last
        some (Entries.insert k (.tables last before) t)
    | some (.value _) => none

/-- **A change to the table that a path leads to.**  Tables that are not there yet are implied. -/
def within (change : Table → Option Table) : List String → Table → Option Table
  | [], t => change t
  | k :: path, t =>
    match Entries.find? k t with
    | none => do
      let inner ← within change path []
      some (Entries.insert k (.table .implied inner) t)
    | some (.table origin inner) => do
      let inner ← within change path inner
      some (Entries.insert k (.table origin inner) t)
    | some (.tables last before) => do
      let last ← within change path last
      some (Entries.insert k (.tables last before) t)
    | some (.value _) => none

/-- the header of a table: it is new, or so far only implied -/
def openTable (name : String) (t : Table) : Option Table :=
  match Entries.find? name t with
  | none => some (Entries.insert name (.table .header []) t)
  | some (.table .implied inner) => some (Entries.insert name (.table .header inner) t)
  | some _ => none

/-- the header of one more table of a list -/
def openNext (name : String) (t : Table) : Option Table :=
  match Entries.find? name t with
  | none => some (Entries.insert name (.tables [] []) t)
  | some (.tables last before) => some (Entries.insert name (.tables [] (last :: before)) t)
  | some _ => none

end Table

end GraphQLCall.Toml
