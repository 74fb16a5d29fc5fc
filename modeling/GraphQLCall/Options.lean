import GraphQLCall.Call.Basic
import GraphQLCall.Types.Decode

/-!
# Options

* `SynthesisOptions`   how a document is wrapped
* `ExtractionOptions`   where a response has its results, and which responses are read
* `Config`   both, as a configuration file has them
* `Reading`   a value read from data, or the reason why it is refused
* `Surplus`   what becomes of items for which there is no field
* `readFields`   a record whose fields all have a default
* `readVariant`   one of several names
-/

namespace GraphQLCall

/-- **How a document is wrapped:** the name of the one entry, and whether it is on its own line. -/
structure SynthesisOptions where
  envelopeField : String
  prettyEnvelope : Bool
  deriving DecidableEq

/-- **Where a response has its results, and which responses are read:** the keys that lead to the
object with one entry for each operation, the status codes of success, and whether the server's
errors are a failure when there is no result. -/
structure ExtractionOptions where
  responsePath : List String
  successStatuses : List Nat
  surfaceServerErrors : Bool
  deriving DecidableEq

structure Config where
  extraction : ExtractionOptions
  synthesis : SynthesisOptions
  deriving DecidableEq

def SynthesisOptions.default : SynthesisOptions := ⟨"query", false⟩

def ExtractionOptions.default : ExtractionOptions := ⟨[], [200], false⟩

def Config.default : Config := ⟨.default, .default⟩

/-- a value read from data, or the reason why it is refused -/
abbrev Reading (α : Type) := Except Reason α

namespace Reading

def refuse {α : Type} (j : Json) (wanted : Wanted) : Reading α :=
  .error (.wrongType (.ofJson j) wanted)

def text : Json → Reading String
  | .str s => .ok s
  | j => refuse j .string

def flag : Json → Reading Bool
  | .bool b => .ok b
  | j => refuse j .boolean

def optionalText : Json → Reading (Option String)
  | .null => .ok none
  | j => (text j).map some

def list {α : Type} (item : Json → Reading α) : Json → Reading (List α)
  | .arr items => Outcome.each item items
  | j => refuse j .sequence

def status : Json → Reading Nat
  | .int n =>
    if 0 ≤ n ∧ n ≤ 0xFFFF then .ok n.toNat
    else .error (.wrongValue (.integer n) (.number "u16"))
  | j => refuse j (.number "u16")

end Reading

/-- a field of a record: its key, and what its data does to the record -/
structure Setter (α : Type) where
  key : String
  set : α → Json → Reading α

/-- the field under a key, set from data that `read` takes -/
def Setter.of {α β : Type} (key : String) (read : Json → Reading β) (set : α → β → α) : Setter α :=
  ⟨key, fun a j => (read j).map (set a)⟩

/-- the entries of an object set one after another; an entry that is no field is passed over -/
def setEntries {α : Type} (setters : List (Setter α)) (a : α) : List (String × Json) → Reading α
  | [] => .ok a
  | (k, j) :: rest =>
    match setters.find? fun s => s.key = k with
    | none => setEntries setters a rest
    | some s =>
      match s.set a j with
      | .error e => .error e
      | .ok a => setEntries setters a rest

/-- the items of an array set as the fields in their order, as far as there are fields -/
def setItems {α : Type} (a : α) : List (Setter α) → List Json → Reading α
  | s :: setters, j :: rest =>
    match s.set a j with
    | .error e => .error e
    | .ok a => setItems a setters rest
  | _, _ => .ok a

/-- what becomes of items of an array for which there is no field -/
inductive Surplus where
  | refused
  | ignored
  deriving DecidableEq

/-- **A record whose fields all have a default:** an object of some of the fields, or an array of
the first of them. -/
def readFields {α : Type} (surplus : Surplus) (ident : String) (setters : List (Setter α))
    (default : α) : Json → Reading α
  | .obj entries => setEntries setters default entries
  | .arr items =>
    match setItems default setters items with
    | .error e => .error e
    | .ok a =>
      if surplus = .refused ∧ setters.length < items.length then
        .error (.tooManyItems items.length)
      else .ok a
  | j => Reading.refuse j (.struct ident)

/-- **One of several names,** alone or as the one key of an object with null under it. -/
def readVariant {α : Type} (all : List α) (name : α → String) (j : Json) : Reading α :=
  let variant (s : String) : Reading α :=
    match all.find? fun a => name a = s with
    | some a => .ok a
    | none => .error (.unknownVariant s (all.map name))
  match j with
  | .str s => variant s
  | .obj [(k, content)] =>
    match variant k, content with
    | .ok a, .null => .ok a
    | .ok _, content => Reading.refuse content .unit
    | .error e, _ => .error e
  | .obj _ => .error (.wrongValue .map .singleEntry)
  | j => Reading.refuse j .stringOrMap

namespace SynthesisOptions

def setters : List (Setter SynthesisOptions) := [
  .of "envelope_field" Reading.text fun o s => { o with envelopeField := s },
  .of "pretty_envelope" Reading.flag fun o b => { o with prettyEnvelope := b }]

def read (surplus : Surplus) : Json → Reading SynthesisOptions :=
  readFields surplus "SynthesisOptions" setters .default

def toJson (o : SynthesisOptions) : Json :=
  .ofEntries [("envelope_field", .str o.envelopeField), ("pretty_envelope", .bool o.prettyEnvelope)]

end SynthesisOptions

namespace ExtractionOptions

def setters : List (Setter ExtractionOptions) := [
  .of "response_path" (Reading.list Reading.text) fun o p => { o with responsePath := p },
  .of "success_statuses" (Reading.list Reading.status) fun o s => { o with successStatuses := s },
  .of "surface_server_errors" Reading.flag fun o b => { o with surfaceServerErrors := b }]

def read (surplus : Surplus) : Json → Reading ExtractionOptions :=
  readFields surplus "ExtractionOptions" setters .default

def toJson (o : ExtractionOptions) : Json :=
  .ofEntries [
    ("response_path", .arr (o.responsePath.map .str)),
    ("success_statuses", .arr (o.successStatuses.map fun (n : Nat) => .int n)),
    ("surface_server_errors", .bool o.surfaceServerErrors)]

end ExtractionOptions

namespace Config

def setters (surplus : Surplus) : List (Setter Config) := [
  .of "extraction" (ExtractionOptions.read surplus) fun c e => { c with extraction := e },
  .of "synthesis" (SynthesisOptions.read surplus) fun c s => { c with synthesis := s }]

def read (surplus : Surplus) : Json → Reading Config :=
  readFields surplus "GqlbindConfig" (setters surplus) .default

def toJson (c : Config) : Json :=
  .ofEntries [("extraction", c.extraction.toJson), ("synthesis", c.synthesis.toJson)]

end Config

namespace Markers

def setters : List (Setter Markers) := [
  .of "alias" Reading.optionalText fun m a => { m with otherName := a },
  .of "ignore" (Reading.list Reading.text) fun m ps =>
    { m with ignored := ps.foldl (fun all p => Entries.insertName p all) [] },
  .of "raw" Reading.flag fun m b => { m with raw := b }]

def read : Json → Reading Markers := readFields .refused "VarMarkers" setters .default

def toJson (m : Markers) : Json :=
  .ofEntries [
    ("alias", match m.otherName with | some a => .str a | none => .null),
    ("ignore", .arr (m.ignored.map .str)),
    ("raw", .bool m.raw)]

end Markers

namespace OperationKind

def read : Json → Reading OperationKind := readVariant all keyword

def toJson (k : OperationKind) : Json := .str k.keyword

end OperationKind

namespace ScalarKind

def read : Json → Reading ScalarKind := readVariant all dataName

def toJson (k : ScalarKind) : Json := .str k.dataName

end ScalarKind

end GraphQLCall
