import Mathlib.Data.Bool.AllAny
import GraphQLCall.Call.Document
import GraphQLCall.Json.Reader
import GraphQLCall.Proofs.Number.Positional

/-!
# Syntax: the lexemes of a document

The lexical grammar of the query language, as far as calls need it: marks of one character, names,
numbers and strings in single quotes.  Blanks, line ends and commas part lexemes and mean nothing;
comments, the three points and block strings are left out.  A lexeme goes on as far as it can, which
`Lexeme.Ends` says of the text behind it.

* `Lexeme`   a lexeme with what it means
* `Quoted`   the characters between quotes, and those that they stand for
* `PowerText`   the text of a power of ten
* `LexemeText`   the text of a lexeme
* `Lexes`   the lexemes of a text
* `Apart`   what can stand behind any lexeme
-/

namespace GraphQLCall

open Number

/-- a mark of one character -/
def isMark (c : Char) : Bool := "!$&():=@[]\x7b|\x7d".toList.contains c

/-- what stands between lexemes -/
def isIgnored (c : Char) : Bool := " \t\n\r,\uFEFF".toList.contains c

/-- **A lexeme** with what it means. -/
inductive Lexeme where
  | mark (c : Char)
  | name (s : String)
  | int (n : Int)
  | float (x : Double)
  | text (s : String)

def isQuotable (c : Char) : Bool := c ≠ '"' && c ≠ '\\' && (c = '\t' || 0x20 ≤ c.toNat)

/-- the character with a code of four hexadecimal digits -/
def unitChar? (a b c d : Char) : Option Char :=
  match Json.hexValue a, Json.hexValue b, Json.hexValue c, Json.hexValue d with
  | some a, some b, some c, some d =>
    let code := ((a * 16 + b) * 16 + c) * 16 + d
    if code.isValidChar then some (Char.ofNat code) else none
  | _, _, _, _ => none

/-- **The characters between quotes,** and those that they stand for. -/
inductive Quoted : List Char → List Char → Prop
  | nil : Quoted [] []
  | plain {c : Char} {w s : List Char} : isQuotable c → Quoted w s → Quoted (c :: w) (c :: s)
  | escape {c x : Char} {w s : List Char} : Json.escaped c = some x → Quoted w s →
      Quoted ('\\' :: c :: w) (x :: s)
  | unit {a b c d x : Char} {w s : List Char} : unitChar? a b c d = some x → Quoted w s →
      Quoted ('\\' :: 'u' :: a :: b :: c :: d :: w) (x :: s)

def signText (negative : Bool) : List Char := if negative then ['-'] else []

def signed (negative : Bool) (ds : List Char) : Int :=
  if negative then -(Nat.ofDigitChars 10 ds 0 : Int) else Nat.ofDigitChars 10 ds 0

/-- **The text of a power of ten,** if there is one. -/
inductive PowerText : List Char → Option Int → Prop
  | none : PowerText [] none
  | unsigned {e : Char} {ds : List Char} : e = 'e' ∨ e = 'E' → IsDigits ds →
      PowerText (e :: ds) (some (signed false ds))
  | plus {e : Char} {ds : List Char} : e = 'e' ∨ e = 'E' → IsDigits ds →
      PowerText (e :: '+' :: ds) (some (signed false ds))
  | minus {e : Char} {ds : List Char} : e = 'e' ∨ e = 'E' → IsDigits ds →
      PowerText (e :: '-' :: ds) (some (signed true ds))

def doubleOf (negative : Bool) (whole fraction : List Char) (power : Option Int) : Double :=
  ⟨negative, (Decimal.ofDigits whole fraction (power.getD 0)).nearest .double⟩

/-- **The text of a lexeme.**  A number with a point or a power of ten is a floating point one. -/
inductive LexemeText : List Char → Lexeme → Prop
  | mark {c : Char} : isMark c → LexemeText [c] (.mark c)
  | name {s : String} : isName s → LexemeText s.toList (.name s)
  | int {negative : Bool} {whole : List Char} : IsWhole whole →
      LexemeText (signText negative ++ whole) (.int (signed negative whole))
  | float {negative : Bool} {whole fraction w : List Char} {power : Option Int} : IsWhole whole →
      IsDigits fraction → PowerText w power →
      LexemeText (signText negative ++ whole ++ '.' :: fraction ++ w)
        (.float (doubleOf negative whole fraction power))
  | scaled {negative : Bool} {whole w : List Char} {power : Int} : IsWhole whole →
      PowerText w (some power) →
      LexemeText (signText negative ++ whole ++ w) (.float (doubleOf negative whole [] power))
  | text {w s : List Char} : Quoted w s →
      LexemeText ('"' :: (w ++ ['"'])) (.text (String.ofList s))

/-- **What does not stand behind a lexeme,** as it would go on with it: letters, digits and low lines
behind a name or a number, a point behind a number, and a third quote behind two. -/
def Lexeme.Ends (l : Lexeme) (rest : List Char) : Prop :=
  match l with
  | .mark _ => True
  | .name _ => ∀ c ∈ rest.head?, ¬ isNameRest c
  | .int _ | .float _ => ∀ c ∈ rest.head?, ¬ isNameRest c ∧ c ≠ '.'
  | .text s => s = "" → ∀ c ∈ rest.head?, c ≠ '"'

/-- **The lexemes of a text.** -/
inductive Lexes : List Char → List Lexeme → Prop
  | nil : Lexes [] []
  | ignored {c : Char} {cs : List Char} {ls : List Lexeme} : isIgnored c → Lexes cs ls →
      Lexes (c :: cs) ls
  | lexeme {w rest : List Char} {l : Lexeme} {ls : List Lexeme} : LexemeText w l → l.Ends rest →
      Lexes rest ls → Lexes (w ++ rest) (l :: ls)

theorem Lexes.isName_of_mem {cs : List Char} {ls : List Lexeme} (h : Lexes cs ls) :
    ∀ s, .name s ∈ ls → isName s := by
  induction h with
  | nil => exact fun s hs => absurd hs List.not_mem_nil
  | ignored _ _ ih => exact ih
  | lexeme hw _ _ ih =>
    intro s hs
    rcases List.mem_cons.mp hs with rfl | hs
    · cases hw
      assumption
    · exact ih s hs

/-- **What can stand behind any lexeme:** a mark, or what is ignored. -/
def Apart (rest : List Char) : Prop := ∀ c ∈ rest.head?, isMark c ∨ isIgnored c

theorem apart_nil : Apart [] := by
  intro c hc
  cases hc

theorem apart_cons {c : Char} {rest : List Char} (h : isMark c ∨ isIgnored c) : Apart (c :: rest) := by
  intro d hd
  cases hd
  exact h

theorem not_isNameRest_of_apart {c : Char} (h : isMark c ∨ isIgnored c) :
    ¬ isNameRest c ∧ c ≠ '.' ∧ c ≠ '"' := by
  have hall : ∀ d ∈ "!$&():=@[]\x7b|\x7d \t\n\r,\uFEFF".toList,
      ¬ isNameRest d ∧ d ≠ '.' ∧ d ≠ '"' :=
    List.all_iff_forall_prop.mp (by decide)
  refine hall c ?_
  rcases h with h | h
  · exact List.mem_append_left " \t\n\r,\uFEFF".toList (List.contains_iff_mem.mp h)
  · exact List.mem_append_right "!$&():=@[]\x7b|\x7d".toList (List.contains_iff_mem.mp h)

theorem Lexeme.ends_of_apart (l : Lexeme) {rest : List Char} (h : Apart rest) : l.Ends rest := by
  cases l with
  | mark c => trivial
  | name s => exact fun c hc => (not_isNameRest_of_apart (h c hc)).1
  | int n =>
    exact fun c hc => ⟨(not_isNameRest_of_apart (h c hc)).1, (not_isNameRest_of_apart (h c hc)).2.1⟩
  | float x =>
    exact fun c hc => ⟨(not_isNameRest_of_apart (h c hc)).1, (not_isNameRest_of_apart (h c hc)).2.1⟩
  | text s => exact fun _ c hc => (not_isNameRest_of_apart (h c hc)).2.2

end GraphQLCall
