import GraphQLCall.Mismatch
import GraphQLCall.Outcome
import GraphQLCall.Types.Basic

/-!
# Types: reading data as a type

An object is read entry by entry, in ascending order of key, and the first entry that its field
refuses is the failure; only then are the fields without an entry looked for, in the order of their
declaration.

* `Ty.readScalar`   data as a type without parts
* `RecordDecl.assemble`   a record from the fields that were read
* `Catalogue.decode`   data as a type
-/

namespace GraphQLCall

open Number

def refused {α : Type} (j : Json) (wanted : Wanted) : Except Mismatch α :=
  .error (.here (.wrongType (.ofJson j) wanted))

def IntKind.read (k : IntKind) (j : Json) : Except Mismatch Datum :=
  match j with
  | .int n =>
    if k.holds n then .ok (.int n)
    else .error (.here (.wrongValue (.integer n) (.number k.name)))
  | _ => refused j (.number k.name)

/-- **Data as a type without parts.** -/
def Ty.readScalar (t : Ty) (j : Json) : Except Mismatch Datum :=
  match t, j with
  | .int k, _ => k.read j
  | .single, .int n => .ok (.single (Binary.ofInt n))
  | .single, .float x => .ok (.single (x.convert .single))
  | .single, _ => refused j (.number "f32")
  | .double, .int n => .ok (.double (Binary.ofInt n))
  | .double, .float x => .ok (.double x)
  | .double, _ => refused j (.number "f64")
  | .bool, .bool b => .ok (.bool b)
  | .bool, _ => refused j .boolean
  | .char, .str s =>
    match s.toList with
    | [c] => .ok (.char c)
    | _ => .error (.here (.wrongValue (.string s) .character))
  | .char, _ => refused j .character
  | .text, .str s => .ok (.text s)
  | .text, _ => refused j .string
  | _, _ => .ok (.json j)

namespace FieldDecl

def missing (f : FieldDecl) : Except Mismatch Datum :=
  match f.fallback with
  | some d => .ok d
  | none => if f.type.nullable then .ok .absent else .error (.here (.missingField f.key))

end FieldDecl

namespace RecordDecl

def fieldOf? (r : RecordDecl) (key : String) : Option FieldDecl :=
  r.fields.find? fun f => f.inShape && f.key = key

/-- **A record from the fields that were read,** `found` holding them by key. -/
def assemble (r : RecordDecl) (found : List (String × Datum)) : Except Mismatch Datum :=
  let entry (f : FieldDecl) : Except Mismatch (String × Bool × Datum) :=
    if f.inShape then
      match Entries.find? f.key found with
      | some d => .ok (f.name, f.inValue, d)
      | none => (f.missing).map fun d => (f.name, f.inValue, d)
    else .ok (f.name, f.inValue, f.fallback.getD .absent)
  (Outcome.each entry r.fields).map .record

def readFields (r : RecordDecl) : List FieldDecl := r.fields.filter (·.inShape)

/-- fields with the items that are left for them, of which one goes to each field that is read;
`used` items have gone to the fields before them -/
def fillInOrder (r : RecordDecl) (used : Nat) :
    List FieldDecl → List Datum → Except Mismatch (List (String × Bool × Datum))
  | [], _ => .ok []
  | f :: fs, found =>
    if f.inShape then
      match found with
      | d :: ds => (fillInOrder r (used + 1) fs ds).map ((f.name, f.inValue, d) :: ·)
      | [] =>
        match f.fallback with
        | some d => (fillInOrder r used fs []).map ((f.name, f.inValue, d) :: ·)
        | none => .error (.here (.tooFewItems used r.ident r.readFields.length))
    else (fillInOrder r used fs found).map ((f.name, f.inValue, f.fallback.getD .absent) :: ·)

/-- a record from the items of an array, one for each field that is read; an item that is not there
leaves its field to the fallback -/
def assembleInOrder (r : RecordDecl) (count : Nat) (found : List Datum) : Except Mismatch Datum :=
  match r.fillInOrder 0 r.fields found with
  | .error m => .error m
  | .ok fields =>
    if found.length < count then .error (.here (.tooManyItems count)) else .ok (.record fields)

end RecordDecl

namespace Catalogue

/-- a variant named without content -/
def bareVariant (variants : List (String × Content)) (name : String) : Except Mismatch Datum :=
  match Entries.find? name variants with
  | none => .error (.here (.unknownVariant name (variants.map (·.1))))
  | some .unit => .ok (.unit name)
  | some (.one _) =>
    Mismatch.within (.variant name) (.error (.here (.wrongType .unitVariant .newtypeVariant)))
  | some (.fields _) =>
    Mismatch.within (.variant name) (.error (.here (.wrongType .unitVariant .structVariant)))

/-- a key of a map whose keys are the variants of a choice -/
def keyVariant (cat : Catalogue) (choice : String) (key : String) : Except Mismatch Unit :=
  match cat.find? choice with
  | some (.choice variants) => (bareVariant variants key).map fun _ => ()
  | _ => .ok ()

mutual

/-- **Data as a type.** -/
def decode (cat : Catalogue) (t : Ty) : Json → Except Mismatch Datum
  | .null =>
    if t.nullable then .ok .absent
    else
      match t.core with
      | .list _ => refused .null .sequence
      | .keyed _ _ => refused .null .map
      | .declared name =>
        match cat.find? name with
        | some (.record r) => refused .null (.struct r.ident)
        | some (.choice _) => refused .null .stringOrMap
        | _ => .ok (.json .null)
      | c => c.readScalar .null
  | .arr items =>
    match t.core with
    | .list inner => (decodeItems cat inner 0 items).map .list
    | .keyed _ _ => refused (.arr items) .map
    | .declared name =>
      match cat.find? name with
      | some (.record r) =>
        match decodeInOrder cat 0 (r.readFields.map (·.type)) items with
        | .error m => .error m
        | .ok found => r.assembleInOrder items.length found
      | some (.choice _) => refused (.arr items) .stringOrMap
      | _ => .ok (.json (.arr items))
    | c => c.readScalar (.arr items)
  | .obj entries =>
    match t.core with
    | .list _ => refused (.obj entries) .sequence
    | .keyed choice inner => (decodeKeyed cat choice inner entries).map .keyed
    | .declared name =>
      match cat.find? name with
      | some (.record r) =>
        match decodeEntries cat r entries with
        | .error m => .error m
        | .ok found => r.assemble found
      | some (.choice variants) => decodeVariant cat variants entries
      | _ => .ok (.json (.obj entries))
    | c => c.readScalar (.obj entries)
  | j =>
    match t.core with
    | .list _ => refused j .sequence
    | .keyed _ _ => refused j .map
    | .declared name =>
      match cat.find? name with
      | some (.record r) => refused j (.struct r.ident)
      | some (.choice variants) =>
        match j with
        | .str s => bareVariant variants s
        | _ => refused j .stringOrMap
      | _ => .ok (.json j)
    | c => c.readScalar j

def decodeItems (cat : Catalogue) (t : Ty) (i : Nat) : List Json → Except Mismatch (List Datum)
  | [] => .ok []
  | j :: rest =>
    match Mismatch.within (.index i) (decode cat t j) with
    | .error m => .error m
    | .ok d => (decodeItems cat t (i + 1) rest).map (d :: ·)

/-- the items of an array, each as the type at its place; what is beyond the last type is left -/
def decodeInOrder (cat : Catalogue) (i : Nat) (types : List Ty) :
    List Json → Except Mismatch (List Datum)
  | [] => .ok []
  | j :: rest =>
    match types with
    | [] => .ok []
    | t :: types =>
      match Mismatch.within (.index i) (decode cat t j) with
      | .error m => .error m
      | .ok d => (decodeInOrder cat (i + 1) types rest).map (d :: ·)

/-- the entries of an object that are fields of a record, by key -/
def decodeEntries (cat : Catalogue) (r : RecordDecl) :
    List (String × Json) → Except Mismatch (List (String × Datum))
  | [] => .ok []
  | (k, j) :: rest =>
    match r.fieldOf? k with
    | none => decodeEntries cat r rest
    | some f =>
      match Mismatch.within (.key k) (decode cat f.type j) with
      | .error m => .error m
      | .ok d => (decodeEntries cat r rest).map ((k, d) :: ·)

/-- the entries of a map whose keys are the variants of a choice -/
def decodeKeyed (cat : Catalogue) (choice : String) (t : Ty) :
    List (String × Json) → Except Mismatch (List (String × Datum))
  | [] => .ok []
  | (k, j) :: rest =>
    match Mismatch.within .unnamed (cat.keyVariant choice k) with
    | .error m => .error m
    | .ok () =>
      match Mismatch.within .unnamed (decode cat t j) with
      | .error m => .error m
      | .ok d => (decodeKeyed cat choice t rest).map ((k, d) :: ·)

/-- the one entry of an object that stands for a variant with its content -/
def decodeVariant (cat : Catalogue) (variants : List (String × Content)) :
    List (String × Json) → Except Mismatch Datum
  | [(name, j)] =>
    match Entries.find? name variants with
    | none => .error (.here (.unknownVariant name (variants.map (·.1))))
    | some .unit =>
      match j with
      | .null => .ok (.unit name)
      | _ => Mismatch.within (.variant name) (refused j .unit)
    | some (.one t) => (Mismatch.within (.variant name) (decode cat t j)).map (.variant name)
    | some (.fields r) =>
      match j with
      | .obj entries =>
        Mismatch.within (.variant name)
          (match decodeEntries cat r entries with
            | .error m => .error m
            | .ok found => (r.assemble found).map (.variant name))
      | _ => Mismatch.within (.variant name) (refused j .structVariant)
  | _ => .error (.here (.wrongValue .map .singleEntry))

end

end Catalogue

end GraphQLCall
