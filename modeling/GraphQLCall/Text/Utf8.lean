/-!
# Text: a text as octets and back

UTF-8 in both directions.  Reading never fails: an octet that belongs to no character stands in the
result as `none`, so that a reader of the result can say where it met one.

* `octetsOf`   the one to four octets of a character
* `octets`   the octets of a text
* `leading`   the character at the front of a list of octets, with the number of its octets
* `characters`   the characters spelled by a list of octets
* `text?`   the text, if each octet belongs to a character
-/

namespace GraphQLCall.Utf8

def octetsOf (c : Char) : List UInt8 :=
  let n := c.toNat
  if n < 0x80 then [.ofNat n]
  else if n < 0x800 then [.ofNat (0xC0 + n / 0x40), .ofNat (0x80 + n % 0x40)]
  else if n < 0x10000 then
    [.ofNat (0xE0 + n / 0x1000), .ofNat (0x80 + n / 0x40 % 0x40), .ofNat (0x80 + n % 0x40)]
  else
    [.ofNat (0xF0 + n / 0x40000), .ofNat (0x80 + n / 0x1000 % 0x40),
      .ofNat (0x80 + n / 0x40 % 0x40), .ofNat (0x80 + n % 0x40)]

def octets (s : String) : List UInt8 := s.toList.flatMap octetsOf

/-- the six bits of a continuation octet -/
def continuation (b : UInt8) : Option Nat :=
  if 0x80 ≤ b.toNat ∧ b.toNat < 0xC0 then some (b.toNat - 0x80) else none

/-- the character with code `n`, unless `n` is no code or could be spelled with fewer octets -/
def scalar (least n : Nat) : Option Char :=
  if least ≤ n ∧ n.isValidChar then some (Char.ofNat n) else none

/-- **The character at the front,** with the number of octets that spell it. -/
def leading : List UInt8 → Option (Char × Nat)
  | [] => none
  | b :: rest =>
    if b.toNat < 0x80 then some (Char.ofNat b.toNat, 1)
    else if 0xC0 ≤ b.toNat ∧ b.toNat < 0xE0 then
      match rest with
      | b1 :: _ => do
        let x ← continuation b1
        let c ← scalar 0x80 ((b.toNat - 0xC0) * 0x40 + x)
        some (c, 2)
      | _ => none
    else if 0xE0 ≤ b.toNat ∧ b.toNat < 0xF0 then
      match rest with
      | b1 :: b2 :: _ => do
        let x ← continuation b1
        let y ← continuation b2
        let c ← scalar 0x800 ((b.toNat - 0xE0) * 0x1000 + x * 0x40 + y)
        some (c, 3)
      | _ => none
    else if 0xF0 ≤ b.toNat ∧ b.toNat < 0xF8 then
      match rest with
      | b1 :: b2 :: b3 :: _ => do
        let x ← continuation b1
        let y ← continuation b2
        let z ← continuation b3
        let c ← scalar 0x10000 ((b.toNat - 0xF0) * 0x40000 + x * 0x1000 + y * 0x40 + z)
        some (c, 4)
      | _ => none
    else none

/-- as `characters`, with `covered` octets at the front that a character before them has used -/
def charactersAfter : (covered : Nat) → List UInt8 → List (Option Char)
  | _, [] => []
  | covered + 1, _ :: rest => charactersAfter covered rest
  | 0, b :: rest =>
    match leading (b :: rest) with
    | some (c, n) => some c :: charactersAfter (n - 1) rest
    | none => none :: charactersAfter 0 rest

/-- **The characters spelled by `bs`,** each stray octet standing as one `none`. -/
def characters (bs : List UInt8) : List (Option Char) := charactersAfter 0 bs

/-- the text spelled by a list of octets, unless one of them belongs to no character -/
def text? (bs : List UInt8) : Option String :=
  let cs := characters bs
  if cs.all Option.isSome then some (String.ofList (cs.filterMap id)) else none

/-- the number of octets behind a character, or behind a stray octet -/
def width : Option Char → Nat
  | none => 1
  | some c => (octetsOf c).length

end GraphQLCall.Utf8
