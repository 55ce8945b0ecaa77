/-
# Downlevel.Text.Blank — white space

`isBlank` is the Unicode property White_Space: twenty-five characters in ten
ranges. `trim` takes them off both ends.
-/

namespace Downlevel.Blank

set_option autoImplicit false

/-- The ranges of the property White_Space, both ends included. -/
def ranges : List (Nat × Nat) :=
  [(0x09, 0x0D), (0x20, 0x20), (0x85, 0x85), (0xA0, 0xA0), (0x1680, 0x1680), (0x2000, 0x200A),
    (0x2028, 0x2029), (0x202F, 0x202F), (0x205F, 0x205F), (0x3000, 0x3000)]

def isBlank (c : Char) : Bool :=
  ranges.any fun r => r.1 ≤ c.toNat && c.toNat ≤ r.2

def trim (cs : List Char) : List Char :=
  ((cs.dropWhile isBlank).reverse.dropWhile isBlank).reverse

end Downlevel.Blank
