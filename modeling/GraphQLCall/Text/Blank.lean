/-!
# Text: white space around a text

* `isBlank`   whether a character is white space
* `trim`   a text without the white space at both of its ends
-/

namespace GraphQLCall.Text

/-- the ranges of white space beyond ASCII, each with its first and its last code -/
def blankRanges : List (Nat × Nat) :=
  [(0x85, 0x85), (0xA0, 0xA0), (0x1680, 0x1680), (0x2000, 0x200A), (0x2028, 0x2029),
    (0x202F, 0x202F), (0x205F, 0x205F), (0x3000, 0x3000)]

/-- **Whether a character is white space,** as the Unicode standard has it. -/
def isBlank (c : Char) : Bool :=
  c = ' ' || (0x09 ≤ c.toNat && c.toNat ≤ 0x0D) ||
    blankRanges.any fun r => r.1 ≤ c.toNat && c.toNat ≤ r.2

/-- **A text without the white space at both of its ends.** -/
def trim (s : String) : String :=
  String.ofList (((s.toList.dropWhile isBlank).reverse.dropWhile isBlank).reverse)

end GraphQLCall.Text
