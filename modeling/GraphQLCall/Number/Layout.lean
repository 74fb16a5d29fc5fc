import GraphQLCall.Number.Decimal

/-!
# Number: floating point numbers as text

* `Layout`   the decisions of a text form: ties, and where the power of ten is written out
* `Layout.literal`   always positional; the form of argument literals
* `Layout.data`   positional from `0.00001` up to sixteen digits; the form of JSON
* `Layout.render`   a finite number in a layout, always with a point or a power of ten
-/

namespace GraphQLCall.Number

/-- **How a floating point number is written.**  `window` bounds the exponents of the leading digit
that are written positionally, both ends included; `none` means all of them. -/
structure Layout where
  tie : Tie
  window : Option (Int × Int)

namespace Layout

/-- argument literals: no power of ten, and the greater of two equally near texts -/
def literal : Layout := ⟨.up, none⟩

/-- JSON: a power of ten from `1e16` on and below `0.00001`, and the even one of two equally near
texts -/
def data : Layout := ⟨.toEven, some (-5, 15)⟩

/-- digits behind a leading point moved by `point` places, with a point and a digit on both sides -/
def positional (digits : List Char) (point : Int) : List Char :=
  if point ≤ 0 then '0' :: '.' :: (List.replicate (-point).toNat '0' ++ digits)
  else if point < digits.length then
    digits.take point.toNat ++ '.' :: digits.drop point.toNat
  else digits ++ List.replicate (point.toNat - digits.length) '0' ++ ['.', '0']

/-- digits behind a leading point with the power of ten written out -/
def scientific (digits : List Char) (point : Int) : List Char :=
  let lead := match digits with
    | [] => ['0']
    | [d] => [d]
    | d :: rest => d :: '.' :: rest
  let power := point - 1
  let sign := if power < 0 then '-' else '+'
  lead ++ 'e' :: sign :: Nat.toDigits 10 power.natAbs

def isPositional (l : Layout) (power : Int) : Bool :=
  match l.window with
  | none => true
  | some (least, greatest) => least ≤ power && power ≤ greatest

def renderAbs (l : Layout) {f : Format} (x : Binary f) : List Char :=
  let d := x.shortest l.tie
  if d.coefficient = 0 then ['0', '.', '0']
  else if l.isPositional (d.point - 1) then positional d.digits d.point
  else scientific d.digits d.point

/-- **A finite number in a layout.** -/
def render (l : Layout) {f : Format} (x : Binary f) : String :=
  String.ofList (if x.negative then '-' :: l.renderAbs x else l.renderAbs x)

end Layout

/-- a number of single precision widened through its shortest text: one tenth stays one tenth -/
def Binary.widen (x : Single) : Double :=
  if x.isFinite then ⟨x.negative, (x.shortest .up).nearest .double⟩
  else x.convert .double

end GraphQLCall.Number
