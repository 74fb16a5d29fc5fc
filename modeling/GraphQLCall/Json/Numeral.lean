import GraphQLCall.Json.Basic

/-!
# JSON: numbers

The digits of a number are kept as long as they fit 64 bits.  Of further digits before the point only
the count is kept, and further ones behind it are passed over.  The value is what is kept times a power
of ten.  Both of them are rounded, and then their product or quotient once more; so it is not always
the double nearest to what is written.

* `Part`, `Numeral`   a number as read so far
* `Numeral.extend?`   one more character
* `scaled`   a number times a power of ten
* `Numeral.value?`   the value of a whole number
-/

namespace GraphQLCall.Json

open Number

inductive Part where
  | minus
  | zero
  | whole
  | point
  | fraction
  | mark
  | markSign
  | power
  deriving DecidableEq

/-- whether a number could end here -/
def Part.isEnd : Part → Bool
  | .zero | .whole | .fraction | .power => true
  | _ => false

/-- **A number as read so far:** the digits that are kept and the power of ten that their places come
to; whether a digit of this part did not fit any more; and the power of ten written after them. -/
structure Numeral where
  negative : Bool
  part : Part
  significand : UInt64
  scale : Int
  full : Bool
  powerNegative : Bool
  power : Nat

namespace Numeral

/-- the first digits of a number, or its sign -/
def first (negative : Bool) (part : Part) (significand : UInt64) : Numeral :=
  ⟨negative, part, significand, 0, false, false, 0⟩

/-- the digits with one more, as long as they fit 64 bits -/
def longer? (n : Numeral) (digit : Nat) : Option UInt64 :=
  let next := n.significand.toNat * 10 + digit
  if n.full || UInt64.size ≤ next then none else some (.ofNat next)

/-- one more digit before the point: one that does not fit is a place -/
def whole (n : Numeral) (digit : Nat) : Numeral :=
  match n.longer? digit with
  | some significand => { n with significand }
  | none => { n with full := true, scale := n.scale + 1 }

/-- one more digit behind the point: one that does not fit is nothing -/
def fraction (n : Numeral) (digit : Nat) : Numeral :=
  match n.longer? digit with
  | some significand => { n with part := .fraction, significand, scale := n.scale - 1 }
  | none => { n with part := .fraction, full := true }

/-- the number with one more character, if it goes on with it -/
def extend? (n : Numeral) (c : Char) : Option Numeral :=
  let digit := c.toNat - '0'.toNat
  match n.part with
  | .minus =>
    if c = '0' then some { n with part := .zero }
    else if c.isDigit then some { n with part := .whole, significand := .ofNat digit }
    else none
  | .zero | .whole =>
    if c.isDigit ∧ n.part = .whole then some (n.whole digit)
    else if c = '.' then some { n with part := .point, full := false }
    else if c = 'e' ∨ c = 'E' then some { n with part := .mark }
    else none
  | .point | .fraction =>
    if c.isDigit then some (n.fraction digit)
    else if (c = 'e' ∨ c = 'E') ∧ n.part = .fraction then some { n with part := .mark }
    else none
  | .mark =>
    if c = '+' then some { n with part := .markSign }
    else if c = '-' then some { n with part := .markSign, powerNegative := true }
    else if c.isDigit then some { n with part := .power, power := digit }
    else none
  | .markSign | .power =>
    if c.isDigit then some { n with part := .power, power := n.power * 10 + digit } else none

end Numeral

/-- the value of an integer of 64 bits and a sign: a floating point number for minus zero, and below
the signed integers of 64 bits -/
def ofNumeral (negative : Bool) (n : UInt64) : Json :=
  if negative then
    if n = 0 then .float ⟨true, 0⟩
    else if leastInt ≤ -(n.toNat : Int) then .int (-(n.toNat : Int))
    else .float ⟨true, Format.double.nearest n.toNat 1⟩
  else .int n.toNat

/-- the greatest power of ten that is not beyond the doubles -/
def greatestPower : Nat := 308

/-- the double nearest to a power of ten -/
def powerOfTen (power : Nat) : Double := ⟨false, Format.double.nearest (Nat.pow 10 power) 1⟩

/-- **A number times a power of ten.**  The power is rounded by itself, and it is divided by if it is a
negative one, in steps if there is no such double.  So `51.248178375505404` comes to the double above
the nearest one. -/
def scaled (x : Double) (power : Int) : Double :=
  if x.magnitude = 0 then x
  else if greatestPower < power then ⟨x.negative, Format.double.infinity⟩
  else if 0 ≤ power then x.times (powerOfTen power.toNat)
  else if -greatestPower ≤ power then x.dividedBy (powerOfTen (-power).toNat)
  else scaled (x.dividedBy (powerOfTen greatestPower)) (power + greatestPower)
termination_by (-power).toNat
decreasing_by
  unfold greatestPower at *
  omega

namespace Numeral

/-- the power of ten of the digits that are kept -/
def exponent (n : Numeral) : Int :=
  if n.powerNegative then n.scale - n.power else n.scale + n.power

/-- **The value of a whole number;** one that comes to infinity has none. -/
def value? (n : Numeral) : Option Json :=
  if (n.part = .zero ∨ n.part = .whole) ∧ ¬ n.full then some (ofNumeral n.negative n.significand)
  else
    let x := scaled ⟨n.negative, Format.double.nearest n.significand.toNat 1⟩ n.exponent
    if x.isFinite then some (.float x) else none

end Numeral

end GraphQLCall.Json
