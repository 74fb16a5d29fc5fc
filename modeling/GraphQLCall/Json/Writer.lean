import GraphQLCall.Json.Basic

/-!
# JSON: writing

* `escapeChar`   a character inside the quotes
* `quote`   a text as a JSON string
* `compact`   a value without blanks
* `pretty`   a value with one item or entry a line, two blanks deeper than its container
-/

namespace GraphQLCall.Json

open Number

def hexDigit (n : Nat) : Char := Nat.digitChar n

/-- **A character inside the quotes:** what would end the string or cannot stand in it is escaped,
and nothing else. -/
def escapeChar (c : Char) : List Char :=
  match c with
  | '"' => ['\\', '"']
  | '\\' => ['\\', '\\']
  | '\x08' => ['\\', 'b']
  | '\x0c' => ['\\', 'f']
  | '\n' => ['\\', 'n']
  | '\r' => ['\\', 'r']
  | '\t' => ['\\', 't']
  | _ =>
    if c.toNat < 0x20 then
      ['\\', 'u', '0', '0', hexDigit (c.toNat / 16), hexDigit (c.toNat % 16)]
    else [c]

/-- a text as a JSON string -/
def quote (s : String) : String :=
  String.ofList ('"' :: (s.toList.flatMap escapeChar ++ ['"']))

def scalar : Json → String
  | .bool true => "true"
  | .bool false => "false"
  | .int n => toString n
  | .float x => if x.isFinite then Layout.data.render x else "null"
  | .str s => quote s
  | _ => "null"

mutual

/-- **A value without blanks.** -/
def compact : Json → String
  | .arr items => "[" ++ compactItems items ++ "]"
  | .obj entries => "\x7b" ++ compactEntries entries ++ "\x7d"
  | j => scalar j

def compactItems : List Json → String
  | [] => ""
  | [j] => compact j
  | j :: rest => compact j ++ "," ++ compactItems rest

def compactEntries : List (String × Json) → String
  | [] => ""
  | [(k, j)] => quote k ++ ":" ++ compact j
  | (k, j) :: rest => quote k ++ ":" ++ compact j ++ "," ++ compactEntries rest

end

def newLine (depth : Nat) : String := "\n" ++ String.ofList (List.replicate (2 * depth) ' ')

mutual

/-- a value with one item or entry a line, inside `depth` containers -/
def prettyAt (depth : Nat) : Json → String
  | .arr [] => "[]"
  | .arr items => "[" ++ prettyItems (depth + 1) items ++ newLine depth ++ "]"
  | .obj [] => "\x7b\x7d"
  | .obj entries => "\x7b" ++ prettyEntries (depth + 1) entries ++ newLine depth ++ "\x7d"
  | j => scalar j

def prettyItems (depth : Nat) : List Json → String
  | [] => ""
  | [j] => newLine depth ++ prettyAt depth j
  | j :: rest => newLine depth ++ prettyAt depth j ++ "," ++ prettyItems depth rest

def prettyEntries (depth : Nat) : List (String × Json) → String
  | [] => ""
  | [(k, j)] => newLine depth ++ quote k ++ ": " ++ prettyAt depth j
  | (k, j) :: rest =>
    newLine depth ++ quote k ++ ": " ++ prettyAt depth j ++ "," ++ prettyEntries depth rest

end

/-- **A value with one item or entry a line,** empty containers excepted. -/
def pretty (j : Json) : String := prettyAt 0 j

end GraphQLCall.Json
