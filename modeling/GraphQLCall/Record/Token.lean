import GraphQLCall.Text.Blank
import GraphQLCall.Text.Join

/-!
# Records: the tokens of a declaration

A declaration is written in names, lifetimes, literals and marks.  Blanks and comments stand between
them and mean nothing.

* `Token`   a name or number, a lifetime, a literal or a mark
* `Token.ofText`   the tokens of a text
* `Token.packed`   tokens written one after another
-/

namespace GraphQLCall

/-- **A token of a declaration.**  A mark is one character, or the two of an arrow. -/
inductive Token where
  | word (s : String)
  | lifetime (s : String)
  | literal (s : String)
  | mark (s : String)
  deriving DecidableEq

namespace Token

def text : Token → String
  | .word s => s
  | .lifetime s => s
  | .literal s => s
  | .mark s => s

/-- **Tokens written one after another,** without blanks. -/
def packed (tokens : List Token) : String := Text.join "" (tokens.map text)

def isWordChar (c : Char) : Bool :=
  c.isAlphanum || c = '_' || (0x80 ≤ c.toNat && !Text.isBlank c)

/-- what is behind a comment between strokes and stars, `depth` more of which are open around it -/
def behindComment : (depth : Nat) → List Char → List Char
  | _, [] => []
  | depth, '/' :: '*' :: rest => behindComment (depth + 1) rest
  | 0, '*' :: '/' :: rest => rest
  | depth + 1, '*' :: '/' :: rest => behindComment depth rest
  | depth, _ :: rest => behindComment depth rest

/-- a quoted text from behind its first quote to its last, and what is behind it; a backslash takes
a character along -/
def quoted (quote : Char) : List Char → List Char × List Char
  | [] => ([], [])
  | '\\' :: c :: rest =>
    let (body, rest) := quoted quote rest
    ('\\' :: c :: body, rest)
  | c :: rest =>
    if c = quote then ([c], rest)
    else
      let (body, rest) := quoted quote rest
      (c :: body, rest)

/-- the same for a raw text, which ends at a quote with as many hashes behind it as it began with -/
def rawQuoted (hashes : List Char) : List Char → List Char × List Char
  | [] => ([], [])
  | c :: rest =>
    if c = '"' ∧ hashes.isPrefixOf rest then (c :: hashes, rest.drop hashes.length)
    else
      let (body, rest) := rawQuoted hashes rest
      (c :: body, rest)

/-- a name and what is behind it; a raw name keeps its mark -/
def name : List Char → List Char × List Char
  | 'r' :: '#' :: rest => ('r' :: '#' :: rest.takeWhile isWordChar, rest.dropWhile isWordChar)
  | text => (text.takeWhile isWordChar, text.dropWhile isWordChar)

/-- the token behind an apostrophe, a character or a lifetime, and what is behind it -/
def apostrophe : List Char → Token × List Char
  | '\\' :: rest =>
    let (body, rest) := quoted '\'' ('\\' :: rest)
    (.literal (String.ofList ('\'' :: body)), rest)
  | c :: '\'' :: rest => (.literal (String.ofList ['\'', c, '\'']), rest)
  | text =>
    let (s, rest) := name text
    (.lifetime (String.ofList ('\'' :: s)), rest)

/-- **A name or number, or a literal that begins with letters,** and what is behind it. -/
def wordOrLiteral (text : List Char) : Token × List Char :=
  let word := text.takeWhile isWordChar
  let rest := text.dropWhile isWordChar
  let hashes := rest.takeWhile (· = '#')
  let literal (start : List Char) (read : List Char × List Char) : Token × List Char :=
    (.literal (String.ofList (word ++ start ++ read.1)), read.2)
  match rest.drop hashes.length with
  | '"' :: body =>
    if word = ['r'] ∨ word = ['b', 'r'] ∨ word = ['c', 'r'] then
      literal (hashes ++ ['"']) (rawQuoted hashes body)
    else if hashes = [] ∧ (word = ['b'] ∨ word = ['c']) then literal ['"'] (quoted '"' body)
    else (.word (String.ofList word), rest)
  | '\'' :: body =>
    if hashes = [] ∧ word = ['b'] then literal ['\''] (quoted '\'' body)
    else (.word (String.ofList word), rest)
  | _ =>
    let (s, rest) := name text
    (.word (String.ofList s), rest)

/-- the tokens of a text; each step takes a character, so `fuel` is at most the text's length -/
def read : (fuel : Nat) → List Char → List Token
  | 0, _ => []
  | fuel + 1, text =>
    match text with
    | [] => []
    | '/' :: '/' :: rest => read fuel (rest.dropWhile (· ≠ '\n'))
    | '/' :: '*' :: rest => read fuel (behindComment 0 rest)
    | '-' :: '>' :: rest => .mark "->" :: read fuel rest
    | '"' :: rest =>
      let (body, rest) := quoted '"' rest
      .literal (String.ofList ('"' :: body)) :: read fuel rest
    | '\'' :: rest =>
      let (t, rest) := apostrophe rest
      t :: read fuel rest
    | c :: rest =>
      if Text.isBlank c then read fuel rest
      else if isWordChar c then
        let (t, rest) := wordOrLiteral (c :: rest)
        t :: read fuel rest
      else .mark (String.singleton c) :: read fuel rest

/-- **The tokens of a text.** -/
def ofText (s : String) : List Token := read s.length s.toList

end Token

end GraphQLCall
