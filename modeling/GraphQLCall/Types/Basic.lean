import GraphQLCall.ScalarKind
import GraphQLCall.Types.Datum

/-!
# Types: the types of arguments and results

A type refers to a record, a choice or an object by name, and a catalogue says what the name stands
for; so a type may contain itself, and a name has one meaning wherever it stands.

* `IntKind`   the integer types
* `Ty`   a type
* `Ty.core`, `Ty.nullable`   a type without its wrappers, and whether one of them takes null
* `Shape`   what the data of a type looks like
* `FieldDecl`, `RecordDecl`   a field and a record
* `Content`, `Declaration`, `Catalogue`   what names stand for
* `Catalogue.fields?`   the fields of the object that a name stands for
-/

namespace GraphQLCall

inductive IntKind where
  | i8
  | i16
  | i32
  | i64
  | u8
  | u16
  | u32
  deriving DecidableEq

namespace IntKind

def name : IntKind → String
  | .i8 => "i8"
  | .i16 => "i16"
  | .i32 => "i32"
  | .i64 => "i64"
  | .u8 => "u8"
  | .u16 => "u16"
  | .u32 => "u32"

def least : IntKind → Int
  | .i8 => -0x80
  | .i16 => -0x8000
  | .i32 => -0x80000000
  | .i64 => -0x8000000000000000
  | _ => 0

def greatest : IntKind → Int
  | .i8 => 0x7F
  | .i16 => 0x7FFF
  | .i32 => 0x7FFFFFFF
  | .i64 => 0x7FFFFFFFFFFFFFFF
  | .u8 => 0xFF
  | .u16 => 0xFFFF
  | .u32 => 0xFFFFFFFF

def holds (k : IntKind) (n : Int) : Bool := k.least ≤ n && n ≤ k.greatest

end IntKind

/-- **A type.**  `option` and `boxed` are wrappers: the first takes null besides, the second changes
nothing.  `keyed` is a map whose keys are the variants of a declared choice. -/
inductive Ty where
  | int (kind : IntKind)
  | single
  | double
  | bool
  | char
  | text
  | json
  | option (inner : Ty)
  | boxed (inner : Ty)
  | list (inner : Ty)
  | keyed (choice : String) (inner : Ty)
  | declared (name : String)
  deriving DecidableEq

namespace Ty

/-- a type without its wrappers -/
def core : Ty → Ty
  | .option inner => core inner
  | .boxed inner => core inner
  | t => t

/-- whether a wrapper of the type takes null -/
def nullable : Ty → Bool
  | .option _ => true
  | .boxed inner => nullable inner
  | _ => false

end Ty

/-- **A shape.**  An object's fields are in ascending order of name, a name may stand there more
than once, and the type name is there for what a named type declares.  `deferred` stands for the
shape of a type, to be looked up when it is needed; so the shape of a type that contains itself is
finite. -/
inductive Shape where
  | scalar (kind : ScalarKind)
  | list (inner : Shape)
  | object (typeName : Option String) (fields : List (String × Shape))
  | deferred (type : Ty)

/-- **A field of a record.**  It is read from data under its key, and it is asked for and sent under
its name.  A field that is not asked for is not read either, and has its fallback. -/
structure FieldDecl where
  name : String
  key : String
  type : Ty
  inShape : Bool
  inValue : Bool
  fallback : Option Datum

/-- a record: the name it has in a message of the decoder, and its fields as declared -/
structure RecordDecl where
  ident : String
  fields : List FieldDecl

inductive Content where
  | unit
  | one (type : Ty)
  | fields (record : RecordDecl)

/-- what a name stands for; an `object` has its fields described one by one, and is read as data of
any kind -/
inductive Declaration where
  | record (decl : RecordDecl)
  | choice (variants : List (String × Content))
  | object (fields : List (String × Shape))

/-- the meaning of names; a name that has none stands for data of any kind -/
abbrev Catalogue := List (String × Declaration)

namespace RecordDecl

/-- the fields that are asked for, in ascending order of name -/
def shape (r : RecordDecl) : List (String × Ty) :=
  Entries.sort ((r.fields.filter (·.inShape)).map fun f => (f.name, f.type))

end RecordDecl

namespace Catalogue

def find? (cat : Catalogue) (name : String) : Option Declaration := Entries.find? name cat

/-- **The fields of the object that a name stands for,** in ascending order of name; those of a
record are each to be looked up by itself. -/
def fields? (cat : Catalogue) (name : String) : Option (List (String × Shape)) :=
  match cat.find? name with
  | some (.record decl) => some (decl.shape.map fun f => (f.1, .deferred f.2))
  | some (.object fields) => some (Entries.sort fields)
  | _ => none

end Catalogue

end GraphQLCall
