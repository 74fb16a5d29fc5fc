import GraphQLCall.Call.Variable
import GraphQLCall.Text.Join

/-!
# Calls: argument literals

An argument is written as its name and the literal of its value.  A field of an object is left out,
name and all, if it is null or if its place is to be ignored; an element of a list has the place of
its list.

* `Literal.quote`   a text as a string literal
* `Literal.ofFloat?`   a floating point literal; what is not finite has none
* `NonFinite`   the place of a number that has no literal
* `Literal.ofValue`   the literal of a value
* `Variable.encode`   an argument, unless its value is null
* `Variable.encodeAll`   the arguments of a call
* `Literal.skipped`   the ignored fields that a value has
-/

namespace GraphQLCall

open Number

/-- the place of a number that has no literal -/
structure NonFinite where
  argument : String
  path : FieldPath
  deriving DecidableEq

namespace Literal

/-- the digit of a number below sixteen, in upper case -/
def hexDigit (n : Nat) : Char := (Nat.digitChar n).toUpper

def isControl (c : Char) : Bool := c.toNat < 0x20 || (0x7F ≤ c.toNat && c.toNat ≤ 0x9F)

/-- **A character inside the quotes.** -/
def escapeChar (c : Char) : List Char :=
  match c with
  | '"' => ['\\', '"']
  | '\\' => ['\\', '\\']
  | '\n' => ['\\', 'n']
  | '\r' => ['\\', 'r']
  | '\t' => ['\\', 't']
  | '\x08' => ['\\', 'b']
  | '\x0c' => ['\\', 'f']
  | _ =>
    if isControl c then
      ['\\', 'u', '0', '0', hexDigit (c.toNat / 16), hexDigit (c.toNat % 16)]
    else [c]

/-- **A text as a string literal.** -/
def quote (s : String) : String :=
  String.ofList ('"' :: (s.toList.flatMap escapeChar ++ ['"']))

def ofFloat? (x : Double) : Option String :=
  if x.isFinite then some (Layout.literal.render x) else none

def ofText (m : Markers) (s : String) : String := if m.raw then s else quote s

mutual

/-- **The literal of a value** at a place of an argument. -/
def ofValue (m : Markers) (argument : String) (path : FieldPath) : Value → Except NonFinite String
  | .null => .ok "null"
  | .bool true => .ok "true"
  | .bool false => .ok "false"
  | .int n => .ok (toString n)
  | .float x =>
    match ofFloat? x with
    | some s => .ok s
    | none => .error ⟨argument, path⟩
  | .str s => .ok (ofText m s)
  | .list items =>
    (ofItems m argument path items).map fun ls => "[" ++ Text.join ", " ls ++ "]"
  | .object entries =>
    (ofFields m argument path entries).map fun ls => "\x7b" ++ Text.join ", " ls ++ "\x7d"

def ofItems (m : Markers) (argument : String) (path : FieldPath) :
    List Value → Except NonFinite (List String)
  | [] => .ok []
  | v :: rest =>
    match ofValue m argument path v with
    | .error e => .error e
    | .ok l => (ofItems m argument path rest).map (l :: ·)

def ofFields (m : Markers) (argument : String) (path : FieldPath) :
    List (String × Value) → Except NonFinite (List String)
  | [] => .ok []
  | (name, v) :: rest =>
    if m.isIgnored (path.child name) || v.isNull then ofFields m argument path rest
    else
      match ofValue m argument (path.child name) v with
      | .error e => .error e
      | .ok l => (ofFields m argument path rest).map ((name ++ ": " ++ l) :: ·)

end

mutual

/-- **The ignored fields that a value has,** in the order of writing. -/
def skipped (m : Markers) (path : FieldPath) : Value → List FieldPath
  | .list items => skippedItems m path items
  | .object entries => skippedFields m path entries
  | _ => []

def skippedItems (m : Markers) (path : FieldPath) : List Value → List FieldPath
  | [] => []
  | v :: rest => skipped m path v ++ skippedItems m path rest

def skippedFields (m : Markers) (path : FieldPath) : List (String × Value) → List FieldPath
  | [] => []
  | (name, v) :: rest =>
    (if m.isIgnored (path.child name) then [path.child name] else skipped m (path.child name) v) ++
      skippedFields m path rest

end

end Literal

namespace Variable

/-- **An argument as it is written,** `none` if its value is null. -/
def encode (v : Variable) : Except NonFinite (Option String) :=
  if v.value.isNull then .ok none
  else
    (Literal.ofValue v.markers v.argumentName .root v.value).map fun l =>
      some (v.argumentName ++ ": " ++ l)

def encodeEach : List Variable → Except NonFinite (List String)
  | [] => .ok []
  | v :: rest =>
    match v.encode with
    | .error e => .error e
    | .ok none => encodeEach rest
    | .ok (some s) => (encodeEach rest).map (s :: ·)

def parenthesize : List String → String
  | [] => ""
  | ls => "(" ++ Text.join ", " ls ++ ")"

/-- **The arguments of a call.** -/
def encodeAll (vs : List Variable) : Except NonFinite String := (encodeEach vs).map parenthesize

end Variable

end GraphQLCall
