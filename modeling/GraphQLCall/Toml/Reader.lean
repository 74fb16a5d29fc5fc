import GraphQLCall.Json.Reader
import GraphQLCall.Toml.Scalar
import GraphQLCall.Toml.Table

/-!
# TOML: reading

* `basicText`, `basicLines`, `literalText`, `literalLines`   the four kinds of quoted text
* `key`   a key, with its parts between dots
* `value`   a value
* `Statement`, `statements`   the lines of a text
* `parse`   the data that a text spells, if it is well formed
-/

namespace GraphQLCall.Toml

def depthLimit : Nat := 79

def isBlank (c : Char) : Bool := c = ' ' || c = '\t'

/-- a character that may stand in a comment or a text as it is -/
def isPlain (c : Char) : Bool := c = '\t' || (0x20 ≤ c.toNat && c.toNat ≠ 0x7F)

def skipBlanks (text : List Char) : List Char := text.dropWhile isBlank

/-- the text behind blanks, ends of lines and comments; what none of them holds is still there -/
def skipLines : (inComment : Bool) → List Char → List Char
  | _, [] => []
  | _, '\n' :: rest => skipLines false rest
  | _, '\r' :: '\n' :: rest => skipLines false rest
  | true, c :: rest => if isPlain c then skipLines true rest else c :: rest
  | false, c :: rest =>
    if isBlank c then skipLines false rest
    else if c = '#' then skipLines true rest
    else c :: rest

/-- the text behind a line on which nothing follows but a comment -/
def lineEnd : (inComment : Bool) → List Char → Option (List Char)
  | _, [] => some []
  | _, '\n' :: rest => some rest
  | _, '\r' :: '\n' :: rest => some rest
  | true, c :: rest => if isPlain c then lineEnd true rest else none
  | false, c :: rest =>
    if isBlank c then lineEnd false rest
    else if c = '#' then lineEnd true rest
    else none

def escaped (c : Char) : Option Char :=
  match c with
  | '"' => some '"'
  | '\\' => some '\\'
  | 'b' => some '\x08'
  | 'f' => some '\x0c'
  | 'n' => some '\n'
  | 'r' => some '\r'
  | 't' => some '\t'
  | _ => none

/-- the character with the code that hexadecimal digits spell -/
def coded (hex : List Char) : Option Char := do
  let ds ← hex.mapM (digitValue 16)
  let n := ofDigits 16 ds
  if n.isValidChar then some (Char.ofNat n) else none

/-- whether a line has nothing left but blanks, and another one follows -/
def isLineRest (text : List Char) : Bool := (skipBlanks text).head? = some '\n'

/-- **The text that a quoted body spells.**  A backslash at the end of a line leaves out the line's
end and all blanks behind it; while that goes on, `folding` is set. -/
def unescape : (folding : Bool) → List Char → Option (List Char)
  | _, [] => some []
  | _, '\\' :: 'u' :: a :: b :: c :: d :: rest => do
    let e ← coded [a, b, c, d]
    let read ← unescape false rest
    some (e :: read)
  | _, '\\' :: 'U' :: a :: b :: c :: d :: e :: f :: g :: h :: rest => do
    let i ← coded [a, b, c, d, e, f, g, h]
    let read ← unescape false rest
    some (i :: read)
  | _, '\\' :: c :: rest =>
    if isLineRest (c :: rest) then unescape true rest
    else do
      let e ← escaped c
      let read ← unescape false rest
      some (e :: read)
  | folding, c :: rest =>
    if folding && (isBlank c || c = '\n') then unescape true rest
    else do
      let read ← unescape false rest
      some (c :: read)

/-- a character in front of the text read after it -/
def onto (c : Char) : Option (List Char × List Char) → Option (List Char × List Char)
  | some (read, rest) => some (c :: read, rest)
  | none => none

/-- the body of a quoted text on one line; with `escapes`, a backslash takes a character along, but
no end of the line -/
def body (quote : Char) (escapes : Bool) : List Char → Option (List Char × List Char)
  | [] => none
  | [c] => if c = quote then some ([], []) else none
  | c :: d :: rest =>
    if c = quote then some ([], d :: rest)
    else if escapes && c = '\\' && isPlain d then onto c (onto d (body quote escapes rest))
    else if isPlain c then onto c (body quote escapes (d :: rest))
    else none

/-- **The body of a text between triple quotes.**  Of five quotes in a row two belong to it. -/
def bodyLines (quote : Char) (escapes : Bool) : List Char → Option (List Char × List Char)
  | [] => none
  | [_] => none
  | c :: d :: rest =>
    let run := (((c :: d :: rest).take 5).takeWhile (· = quote)).length
    if 3 ≤ run then some (List.replicate (run - 3) quote, (c :: d :: rest).drop run)
    else if escapes && c = '\\' && d ≠ '\r' then onto c (onto d (bodyLines quote escapes rest))
    else if c = '\r' then if d = '\n' then bodyLines quote escapes (d :: rest) else none
    else if c = '\n' || isPlain c then onto c (bodyLines quote escapes (d :: rest))
    else none

/-- the text behind the end of a line, if it starts with one -/
def withoutFirstEnd : List Char → List Char
  | '\n' :: rest => rest
  | '\r' :: '\n' :: rest => rest
  | rest => rest

def finishBasic (read : Option (List Char × List Char)) : Option (String × List Char) := do
  let (b, rest) ← read
  let s ← unescape false b
  some (String.ofList s, rest)

def finishLiteral (read : Option (List Char × List Char)) : Option (String × List Char) := do
  let (b, rest) ← read
  some (String.ofList b, rest)

/-- **A part of a key:** bare, or quoted on one line. -/
def keyPart : List Char → Option (String × List Char)
  | '"' :: text => finishBasic (body '"' true text)
  | '\'' :: text => finishLiteral (body '\'' false text)
  | text =>
    let isBare (c : Char) : Bool := c.isAlphanum || c = '_' || c = '-'
    let part := text.takeWhile isBare
    if part = [] then none else some (String.ofList part, text.dropWhile isBare)

/-- **A key:** the names of the tables on the way and the name of the entry.  It has at most as many
parts as its first argument says. -/
def key : Nat → List String → List Char → Option ((List String × String) × List Char)
  | 0, _, _ => none
  | left + 1, path, text => do
    let (part, rest) ← keyPart text
    match skipBlanks rest with
    | '.' :: rest => key left (path ++ [part]) (skipBlanks rest)
    | rest => some ((path, part), rest)

/-- a value that is one word; a space between a date and a time does not end it -/
def bare (text : List Char) : Option (Json × List Char) := do
  let isWord (c : Char) : Bool :=
    c.isAlphanum || c = '_' || c = '-' || c = '+' || c = '.' || c = ':'
  let word := text.takeWhile isWord
  let rest := text.dropWhile isWord
  let j ← scalar word
  if isDate word && rest.head? = some ' ' && isPlacedTime ((rest.drop 1).takeWhile isWord) then
    some (j, (rest.drop 1).dropWhile isWord)
  else some (j, rest)

mutual

/-- **The value at the front of a text,** inside `depth` containers.  `fuel` bounds the calls; twice
the length of the text is enough, since two calls always take a character. -/
def value : (fuel : Nat) → (depth : Nat) → List Char → Option (Json × List Char)
  | 0, _, _ => none
  | fuel + 1, depth, text =>
    let textual (read : Option (String × List Char)) : Option (Json × List Char) :=
      read.map fun r => (.str r.1, r.2)
    match text with
    | '"' :: '"' :: '"' :: text => textual (finishBasic (bodyLines '"' true (withoutFirstEnd text)))
    | '\'' :: '\'' :: '\'' :: text =>
      textual (finishLiteral (bodyLines '\'' false (withoutFirstEnd text)))
    | '"' :: text => textual (finishBasic (body '"' true text))
    | '\'' :: text => textual (finishLiteral (body '\'' false text))
    | '[' :: text =>
      if depth < depthLimit then items fuel (depth + 1) [] (skipLines false text) else none
    | '{' :: text =>
      if depth < depthLimit then
        match skipBlanks text with
        | '}' :: rest => some (.obj [], rest)
        | text => pairs fuel (depth + 1) [] text
      else none
    | text => bare text

/-- the items of an array, behind those read already; a comma may stand behind the last one -/
def items : (fuel : Nat) → (depth : Nat) → List Json → List Char → Option (Json × List Char)
  | 0, _, _, _ => none
  | fuel + 1, depth, read, text =>
    match text with
    | ']' :: rest => some (.arr read, rest)
    | text => do
      let (j, rest) ← value fuel depth text
      match skipLines false rest with
      | ',' :: rest => items fuel depth (read ++ [j]) (skipLines false rest)
      | ']' :: rest => some (.arr (read ++ [j]), rest)
      | _ => none

def pairs : (fuel : Nat) → (depth : Nat) → Table → List Char → Option (Json × List Char)
  | 0, _, _, _ => none
  | fuel + 1, depth, read, text => do
    let ((path, name), rest) ← key depthLimit [] text
    match rest with
    | '=' :: rest => do
      let (j, rest) ← value fuel depth (skipBlanks rest)
      let read ← read.set j name path
      match skipBlanks rest with
      | ',' :: rest => pairs fuel depth read (skipBlanks rest)
      | '}' :: rest => some (read.toJson, rest)
      | _ => none
    | _ => none

end

/-- **A line:** the header of a table, the header of one more table of a list, or an entry. -/
inductive Statement where
  | table (path : List String) (name : String)
  | nextTable (path : List String) (name : String)
  | entry (path : List String) (name : String) (j : Json)

def statement : List Char → Option (Statement × List Char)
  | '[' :: '[' :: text => do
    let ((path, name), rest) ← key depthLimit [] (skipBlanks text)
    match rest with
    | ']' :: ']' :: rest => some (.nextTable path name, rest)
    | _ => none
  | '[' :: text => do
    let ((path, name), rest) ← key depthLimit [] (skipBlanks text)
    match rest with
    | ']' :: rest => some (.table path name, rest)
    | _ => none
  | text => do
    let ((path, name), rest) ← key depthLimit [] text
    match rest with
    | '=' :: rest => do
      let (j, rest) ← value (2 * rest.length) 0 (skipBlanks rest)
      some (.entry path name j, rest)
    | _ => none

/-- the statements of a text; each takes a character, so `fuel` is at most the text's length -/
def statements : (fuel : Nat) → List Char → Option (List Statement)
  | 0, text => if text = [] then some [] else none
  | fuel + 1, text =>
    match skipLines false text with
    | [] => some []
    | text => do
      let (s, rest) ← statement text
      let rest ← lineEnd false rest
      let more ← statements fuel rest
      some (s :: more)

/-- **The tables that statements build,** with the path of the table that is being filled. -/
def build : List Statement → (current : List String) → Table → Option Table
  | [], _, t => some t
  | .table path name :: rest, _, t => do
    let t ← t.within (Table.openTable name) path
    build rest (path ++ [name]) t
  | .nextTable path name :: rest, _, t => do
    let t ← t.within (Table.openNext name) path
    build rest (path ++ [name]) t
  | .entry path name j :: rest, current, t => do
    let t ← t.within (Table.set j name path) current
    build rest current t

/-- **The data that a text spells,** if it is well formed.  A byte order mark at its start is no
part of it. -/
def parse (text : String) : Option Json := do
  let chars :=
    match text.toList with
    | '\uFEFF' :: chars => chars
    | chars => chars
  let read ← statements chars.length chars
  let t ← build read [] []
  some t.toJson

end GraphQLCall.Toml
