import GraphQLCall.Outcome
import GraphQLCall.Record.Attributes
import GraphQLCall.Record.Param
import GraphQLCall.Types.Basic

/-!
# Records: from a description to a declaration

* `FieldItem`, `Item`   a field and an item as they are described
* `FieldItem.graphqlName`   the name of a field
* `Derived`   the fields of a record that are asked for and those that are sent
* `Item.derive`   the fields of a described record
* `Item.declare`   the record that a description declares
-/

namespace GraphQLCall

structure FieldItem (τ : Type) where
  ident : String
  type : τ
  attrs : List AttrGroup

inductive ItemKind where
  | named
  | tuple
  | unit
  | enumeration
  | union
  deriving DecidableEq

/-- **An item as it is described.**  Each parameter is given with whether a comma is behind it. -/
structure Item (τ : Type) where
  kind : ItemKind
  name : String
  params : List (Param × Bool)
  attrs : List AttrGroup
  fields : List (FieldItem τ)

/-- **The fields of a record that are asked for,** each with its type, **and those that are sent,**
each with its identifier; and for whom: the item with its parameters, each type among them bound. -/
structure Derived (τ : Type) where
  target : String
  shape : List (String × τ)
  value : List (String × String)
  bounds : List String

namespace FieldItem

variable {τ : Type}

def graphqlName (f : FieldItem τ) (rule : Option RenameRule) (a : Attributes) : String :=
  match a.rename, rule with
  | some name, _ => name
  | none, some rule => rule.name (plainIdent f.ident)
  | none, none => plainIdent f.ident

def readKey (f : FieldItem τ) (rule : Option RenameRule) (a : Attributes) : String :=
  match a.rename, rule with
  | some name, _ => name
  | none, some rule => rule.key (plainIdent f.ident)
  | none, none => plainIdent f.ident

end FieldItem

namespace Item

variable {τ : Type}

/-- **An item with its parameters,** lifetimes in front and each with the comma behind it. -/
def target (i : Item τ) : String :=
  if i.params.isEmpty then i.name
  else
    i.name ++ "<" ++
      Text.join "" ((lifetimesFirst Param.isLifetime i.params).map fun p =>
        p.1.name ++ if p.2 then "," else "") ++ ">"

def bounds (i : Item τ) : List String :=
  (i.params.filterMap (·.1.typeName?)).map (· ++ ":gqlbind::types::FieldEnumerable")

/-- the attributes of an item and of each of its fields -/
def attributes (i : Item τ) : Except AttrError (Attributes × List (FieldItem τ × Attributes)) :=
  match Attributes.ofGroups i.attrs with
  | .error e => .error e
  | .ok own =>
    if i.kind = .named then
      match Outcome.each (fun f => (Attributes.ofGroups f.attrs).map fun a => (f, a)) i.fields with
      | .error e => .error e
      | .ok fields => .ok (own, fields)
    else .error .unnamedFields

/-- **The fields of a described record.** -/
def derive (i : Item τ) : Except AttrError (Derived τ) :=
  (attributes i).map fun (own, fields) => {
    target := i.target
    shape := (fields.filter (·.2.inShape)).map fun (f, a) =>
      (f.graphqlName own.renameAll a, f.type)
    value := (fields.filter (·.2.inValue)).map fun (f, a) =>
      (f.graphqlName own.renameAll a, f.ident)
    bounds := i.bounds }

end Item

/-- the data that stands for a field of a type without anything being read -/
def Ty.default? : Ty → Option Datum
  | .int _ => some (.int 0)
  | .single => some (.single ⟨false, 0⟩)
  | .double => some (.double ⟨false, 0⟩)
  | .bool => some (.bool false)
  | .char => some (.char '\x00')
  | .text => some (.text "")
  | .json => some (.json .null)
  | .option _ => some .absent
  | .boxed inner => inner.default?
  | .list _ => some (.list [])
  | .keyed _ _ => some (.keyed [])
  | .declared _ => none

/-- **The record that a description declares.** -/
def Item.declare (i : Item Ty) : Except AttrError RecordDecl :=
  i.attributes.map fun (own, fields) => {
    ident := i.name
    fields := fields.map fun (f, a) => {
      name := f.graphqlName own.renameAll a
      key := f.readKey own.renameAll a
      type := f.type
      inShape := a.inShape
      inValue := a.inValue
      fallback := if a.hasDefault || !a.inShape then f.type.default? else none } }

end GraphQLCall
