import GraphQLCall.Json.Basic
import GraphQLCall.Number.Decimal

/-!
# TOML: bare values

A value that is neither quoted nor bracketed is one word, and the word's form says what it is.

* `digits`   a run of digits, with single underscores between them
* `integer`, `floating`   the numbers
* `isDate`, `isTime`, `isMoment`   dates and times
* `scalar`   the value of a word
-/

namespace GraphQLCall.Toml

open Number

def digitValue (base : Nat) (c : Char) : Option Nat :=
  let d :=
    if c.isDigit then c.toNat - '0'.toNat
    else if 'a' ≤ c ∧ c ≤ 'f' then c.toNat - 'a'.toNat + 10
    else if 'A' ≤ c ∧ c ≤ 'F' then c.toNat - 'A'.toNat + 10
    else base
  if d < base then some d else none

/-- **The digits of a run,** in which a single underscore may stand between two digits. -/
def digits (base : Nat) : List Char → Option (List Nat)
  | [] => none
  | [c] => (digitValue base c).map fun d => [d]
  | c :: '_' :: rest => do
    let d ← digitValue base c
    let ds ← digits base rest
    some (d :: ds)
  | c :: rest => do
    let d ← digitValue base c
    let ds ← digits base rest
    some (d :: ds)

def ofDigits (base : Nat) (ds : List Nat) : Nat := ds.foldl (fun n d => n * base + d) 0

/-- a sign at the front, and what is behind it -/
def signed : List Char → Bool × List Char
  | '-' :: rest => (true, rest)
  | '+' :: rest => (false, rest)
  | rest => (false, rest)

/-- the digits of a decimal number before the point: no zero leads others -/
def wholeDigits (text : List Char) : Option (List Nat) := do
  let ds ← digits 10 text
  if ds.head? = some 0 ∧ ds.length ≠ 1 then none else some ds

/-- **An integer of 64 bits with a sign.**  Only a decimal one is written with a sign. -/
def integer (word : List Char) : Option Json := do
  let n : Int ←
    match word with
    | '0' :: 'x' :: text => (digits 16 text).map fun ds => (ofDigits 16 ds : Int)
    | '0' :: 'o' :: text => (digits 8 text).map fun ds => (ofDigits 8 ds : Int)
    | '0' :: 'b' :: text => (digits 2 text).map fun ds => (ofDigits 2 ds : Int)
    | _ =>
      let (negative, text) := signed word
      (wholeDigits text).map fun ds =>
        if negative then -(ofDigits 10 ds : Int) else (ofDigits 10 ds : Int)
  if Json.leastInt ≤ n ∧ n ≤ Json.greatestInt then some (.int n) else none

/-- the power of ten behind the mark of a floating point number -/
def power : List Char → Option Int
  | [] => some 0
  | _ :: text => do
    let (negative, text) := signed text
    let ds ← digits 10 text
    some (if negative then -(ofDigits 10 ds : Int) else (ofDigits 10 ds : Int))

def isMark (c : Char) : Bool := c = 'e' || c = 'E'

/-- **A floating point number:** with a fraction, with a power of ten, with both, or by its name.
Digits spell no number above the greatest one, but they do spell negative infinity. -/
def floating (word : List Char) : Option Json :=
  let (negative, text) := signed word
  if text = ['i', 'n', 'f'] then some (.float ⟨negative, Format.double.infinity⟩)
  else if text = ['n', 'a', 'n'] then some (.float ⟨negative, Format.double.infinity + 1⟩)
  else do
    let digitsText := text.takeWhile fun c => !isMark c
    let powerText := text.dropWhile fun c => !isMark c
    let whole ← wholeDigits (digitsText.takeWhile (· ≠ '.'))
    let fraction ←
      match digitsText.dropWhile (· ≠ '.') with
      | [] => if powerText = [] then none else some []
      | _ :: fractionText => digits 10 fractionText
    let p ← power powerText
    let nearest := Decimal.nearest .double ⟨ofDigits 10 (whole ++ fraction), p - fraction.length⟩
    if nearest = Format.double.infinity ∧ !negative then none else some (.float ⟨negative, nearest⟩)

/-- the number that decimal digits spell -/
def decimal (ds : List Char) : Nat := ofDigits 10 (ds.map fun c => c.toNat - '0'.toNat)

/-- a number of exactly two digits within bounds -/
def twoDigits (least greatest : Nat) (a b : Char) : Bool :=
  a.isDigit && b.isDigit && decide (least ≤ decimal [a, b] ∧ decimal [a, b] ≤ greatest)

def monthDays (year month : Nat) : Nat :=
  if month = 2 then
    if year % 4 = 0 ∧ (year % 100 ≠ 0 ∨ year % 400 = 0) then 29 else 28
  else if month = 4 ∨ month = 6 ∨ month = 9 ∨ month = 11 then 30
  else 31

def isDate : List Char → Bool
  | [y, e, a, r, '-', m, n, '-', d, f] =>
    [y, e, a, r].all Char.isDigit && twoDigits 1 12 m n &&
      twoDigits 1 (monthDays (decimal [y, e, a, r]) (decimal [m, n])) d f
  | _ => false

/-- a time of day: hour, minute, second, and perhaps a part of a second -/
def isTime : List Char → Bool
  | h :: o :: ':' :: m :: i :: ':' :: s :: e :: rest =>
    twoDigits 0 23 h o && twoDigits 0 59 m i && twoDigits 0 60 s e &&
      match rest with
      | [] => true
      | '.' :: part => !part.isEmpty && part.all Char.isDigit
      | _ => false
  | _ => false

/-- the distance of a time from the common one -/
def isOffset : List Char → Bool
  | [c] => c = 'Z' || c = 'z'
  | [sign, h, o, ':', m, i] =>
    (sign = '+' || sign = '-') && twoDigits 0 23 h o && twoDigits 0 59 m i
  | _ => false

/-- a time of day that may have its distance from the common one behind it -/
def isPlacedTime (text : List Char) : Bool :=
  let isClock (c : Char) : Bool := c.isDigit || c = ':' || c = '.'
  let offset := text.dropWhile isClock
  isTime (text.takeWhile isClock) && (offset.isEmpty || isOffset offset)

/-- a date, a time of day, or a time on a date -/
def isMoment (word : List Char) : Bool :=
  isDate word || isTime word ||
    (isDate (word.take 10) &&
      match word.drop 10 with
      | c :: time => (c = 'T' || c = 't') && isPlacedTime time
      | [] => false)

/-- a date or time as data: no setting takes one, so its parts are not kept -/
def moment : Json := .obj []

/-- **The value of a bare word.** -/
def scalar (word : List Char) : Option Json :=
  if word = ['t', 'r', 'u', 'e'] then some (.bool true)
  else if word = ['f', 'a', 'l', 's', 'e'] then some (.bool false)
  else if isMoment word then some moment
  else
    match integer word with
    | some j => some j
    | none => floating word

end GraphQLCall.Toml
