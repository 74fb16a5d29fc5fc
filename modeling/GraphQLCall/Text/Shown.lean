import GraphQLCall.Text.Join
import GraphQLCall.Text.Unseen

/-!
# Text: a text as it is shown in a message

* `hexDigits`   a number in hexadecimal
* `shownChar`   a character inside the quotes
* `shown`   a text in quotes, with everything escaped that could not be told apart otherwise
* `shownList`   a list of texts
-/

namespace GraphQLCall.Text

def hexDigits (n : Nat) : String := String.ofList (Nat.toDigits 16 n)

/-- **A character inside the quotes:** itself where it can be seen, else its escape. -/
def shownChar (c : Char) : String :=
  match c with
  | '\x00' => "\\0"
  | '\t' => "\\t"
  | '\r' => "\\r"
  | '\n' => "\\n"
  | '"' => "\\\""
  | '\\' => "\\\\"
  | _ => if isUnseen c then "\\u\x7b" ++ hexDigits c.toNat ++ "\x7d" else String.singleton c

def shownChars : List Char → String
  | [] => ""
  | c :: rest => shownChar c ++ shownChars rest

/-- **A text as it is shown:** in quotes, unseen characters by their code. -/
def shown (s : String) : String := "\"" ++ shownChars s.toList ++ "\""

def shownList (ss : List String) : String := "[" ++ join ", " (ss.map shown) ++ "]"

end GraphQLCall.Text
