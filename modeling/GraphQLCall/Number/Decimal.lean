import GraphQLCall.Number.Binary

/-!
# Number: decimals and the shortest one that reads back

* `Decimal`   a coefficient and a power of ten
* `Decimal.nearest`   the magnitude nearest to a decimal
* `Tie`   which of two equally near decimals is taken
* `Binary.shortest`   the decimal with the fewest digits that reads back, of those the nearest
* `Decimal.digits`, `Decimal.point`   a decimal as `0.d₁d₂… * 10 ^ point`
-/

namespace GraphQLCall.Number

/-- **A decimal number,** `coefficient * 10 ^ exponent`. -/
structure Decimal where
  coefficient : Nat
  exponent : Int
  deriving DecidableEq

namespace Decimal

def length (d : Decimal) : Nat := (Nat.toDigits 10 d.coefficient).length

def quotient (d : Decimal) : Nat × Nat :=
  if 0 ≤ d.exponent then (d.coefficient * Nat.pow 10 d.exponent.toNat, 1)
  else (d.coefficient, Nat.pow 10 (-d.exponent).toNat)

/-- **The magnitude nearest to a decimal.**  No format in use reaches a number of four hundred
digits, or tells one below `10 ^ -400` from zero, so the power of ten is never taken there. -/
def nearest (f : Format) (d : Decimal) : Nat :=
  if d.coefficient = 0 then 0
  else if 400 < d.length + d.exponent then f.infinity
  else if d.length + d.exponent < -400 then 0
  else f.nearest d.quotient.1 d.quotient.2

end Decimal

inductive Tie where
  | up
  | toEven
  deriving DecidableEq

/-- the least power of ten above a positive quotient -/
def decimalPoint (num den : Nat) : Int :=
  if den ≤ num then (Nat.toDigits 10 (num / den)).length
  else 1 - ((Nat.toDigits 10 ((den - 1) / num)).length : Nat)

/-- a quotient counted in units of `10 ^ place`: the whole units and the quotient's remainder over
the unit -/
def decimalUnits (num den : Nat) (place : Int) : Nat × Nat × Nat :=
  let (n, d) :=
    if 0 ≤ place then (num, den * Nat.pow 10 place.toNat)
    else (num * Nat.pow 10 (-place).toNat, den)
  (n / d, n % d, d)

namespace Binary

variable {f : Format}

/-- of the two decimals with last place `place` around the absolute value of `x`, the one that reads
back as `x`; where both do, the nearer one -/
def neighbour? (tie : Tie) (x : Binary f) (place : Int) : Option Decimal :=
  let (low, rest, whole) := decimalUnits x.quotient.1 x.quotient.2 place
  let below : Decimal := ⟨low, place⟩
  let above : Decimal := ⟨low + 1, place⟩
  let tieUpward :=
    match tie with
    | .up => true
    | .toEven => low % 2 = 1
  let upward := whole < 2 * rest || (whole = 2 * rest && tieUpward)
  let near := if upward then above else below
  let far := if upward then below else above
  if near.nearest f = x.magnitude then some near
  else if far.nearest f = x.magnitude then some far
  else none

/-- the first of `places`, from the coarsest on, where a neighbour of `x` reads back -/
def firstNeighbour? (tie : Tie) (x : Binary f) (point : Int) :
    (count : Nat) → (digits : Nat) → Option Decimal
  | 0, _ => none
  | count + 1, digits =>
    match neighbour? tie x (point - digits) with
    | some d => some d
    | none => firstNeighbour? tie x point count (digits + 1)

/-- the absolute value of `x`, written out in full -/
def exactDecimal (x : Binary f) : Decimal :=
  if 0 ≤ x.unit then ⟨x.significand * Nat.pow 2 x.unit.toNat, 0⟩
  else ⟨x.significand * Nat.pow 5 (-x.unit).toNat, x.unit⟩

/-- **The decimal with the fewest digits that reads back** as the absolute value of a finite `x`,
and of those the nearest.  Seventeen digits are always enough for the formats in use; should they
not be for another one, the value is written out in full. -/
def shortest (tie : Tie) (x : Binary f) : Decimal :=
  if x.significand = 0 then ⟨0, 0⟩
  else
    match firstNeighbour? tie x (decimalPoint x.quotient.1 x.quotient.2) 17 1 with
    | some d => d
    | none => x.exactDecimal

end Binary

namespace Decimal

/-- the digits of the coefficient without the zeros at its end -/
def digits (d : Decimal) : List Char :=
  ((Nat.toDigits 10 d.coefficient).reverse.dropWhile (· = '0')).reverse

/-- the power of ten in front of which `digits` stand behind a leading point -/
def point (d : Decimal) : Int := d.length + d.exponent

end Decimal

end GraphQLCall.Number
