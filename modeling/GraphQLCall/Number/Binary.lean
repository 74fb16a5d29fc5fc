/-!
# Number: binary floating point

A binary interchange format has a sign, an exponent and a fraction; read as one natural number the
exponent and the fraction are the *magnitude*, and magnitudes are in the order of the numbers they
stand for: the finite ones, then infinity, then what is not a number.

* `Format`   the widths of a format; `Format.double` and `Format.single` are the two in use
* `Format.nearest`   the magnitude nearest to a quotient, a tie going to the even neighbour
* `Binary`   a floating point number of a format
* `Binary.significand`, `Binary.unit`   a finite number as `significand * 2 ^ unit`
* `Binary.times`, `Binary.dividedBy`   the rounded product and quotient
-/

namespace GraphQLCall.Number

structure Format where
  fractionBits : Nat
  exponentBits : Nat
  deriving DecidableEq

namespace Format

def double : Format := ⟨52, 11⟩

def single : Format := ⟨23, 8⟩

/-- the least exponent of a unit: every finite number is a multiple of two to this power -/
def leastUnit (f : Format) : Int :=
  2 - (Nat.pow 2 (f.exponentBits - 1) : Nat) - (f.fractionBits : Nat)

def infinity (f : Format) : Nat := (Nat.pow 2 f.exponentBits - 1) * Nat.pow 2 f.fractionBits

end Format

/-- the natural number nearest to a quotient, a tie going to the even neighbour -/
def roundQuotient (num den : Nat) : Nat :=
  let q := num / den
  let r := num % den
  if 2 * r < den then q
  else if den < 2 * r then q + 1
  else q + q % 2

/-- the exponent of the leading bit of a positive quotient -/
def leadingBit (num den : Nat) : Int :=
  let k : Int := (Nat.log2 num : Int) - (Nat.log2 den : Int)
  let below := if 0 ≤ k then num < den * Nat.pow 2 k.toNat else num * Nat.pow 2 (-k).toNat < den
  if below then k - 1 else k

namespace Format

/-- **The magnitude nearest to `num / den`.**  The quotient is counted in units of its own binary
place, or of the least unit where that is coarser; a count that reaches the next power of two is
the first of the next place, so the sum below carries by itself. -/
def nearest (f : Format) (num den : Nat) : Nat :=
  if num = 0 then 0
  else
    let unit := max (leadingBit num den - (f.fractionBits : Nat)) f.leastUnit
    let count :=
      if 0 ≤ unit then roundQuotient num (den * Nat.pow 2 unit.toNat)
      else roundQuotient (num * Nat.pow 2 (-unit).toNat) den
    min ((unit - f.leastUnit).toNat * Nat.pow 2 f.fractionBits + count) f.infinity

end Format

/-- **A floating point number:** its sign and its magnitude. -/
structure Binary (f : Format) where
  negative : Bool
  magnitude : Nat
  deriving DecidableEq

abbrev Double := Binary Format.double

abbrev Single := Binary Format.single

namespace Binary

variable {f : Format}

def isFinite (x : Binary f) : Bool := x.magnitude < f.infinity

def isNaN (x : Binary f) : Bool := f.infinity < x.magnitude

/-- the natural number that, times two to the power `unit`, is the absolute value -/
def significand (x : Binary f) : Nat :=
  if x.magnitude / Nat.pow 2 f.fractionBits = 0 then x.magnitude
  else x.magnitude % Nat.pow 2 f.fractionBits + Nat.pow 2 f.fractionBits

def unit (x : Binary f) : Int :=
  f.leastUnit + ((x.magnitude / Nat.pow 2 f.fractionBits - 1 : Nat) : Int)

def quotient (x : Binary f) : Nat × Nat :=
  if 0 ≤ x.unit then (x.significand * Nat.pow 2 x.unit.toNat, 1)
  else (x.significand, Nat.pow 2 (-x.unit).toNat)

def ofInt (n : Int) : Binary f := ⟨n < 0, f.nearest n.natAbs 1⟩

/-- the product of two finite numbers, rounded -/
def times (x y : Binary f) : Binary f :=
  ⟨x.negative != y.negative,
    f.nearest (x.quotient.1 * y.quotient.1) (x.quotient.2 * y.quotient.2)⟩

/-- the quotient of two finite numbers, the second of them not zero, rounded -/
def dividedBy (x y : Binary f) : Binary f :=
  ⟨x.negative != y.negative,
    f.nearest (x.quotient.1 * y.quotient.2) (x.quotient.2 * y.quotient.1)⟩

/-- the number of another format nearest to this one -/
def convert (g : Format) (x : Binary f) : Binary g :=
  if x.isFinite then ⟨x.negative, g.nearest x.quotient.1 x.quotient.2⟩
  else if x.isNaN then ⟨false, g.infinity + 1⟩
  else ⟨x.negative, g.infinity⟩

end Binary

end GraphQLCall.Number
