/-!
**White space around numerals.**

Main definitions:

* `Blank.isBlank` — the characters that may surround a numeral: the blanks of ASCII and the
  characters above ASCII with the white space property;
* `Blank.trim` — a text without the characters of a class at its ends.
-/

set_option autoImplicit false
set_option relaxedAutoImplicit false

namespace Breadboard

namespace Blank

/-- The characters above ASCII with the white space property, as closed ranges. -/
def wide : List (Nat × Nat) :=
  [(0x85, 0x85), (0xa0, 0xa0), (0x1680, 0x1680), (0x2000, 0x200a), (0x2028, 0x2029),
   (0x202f, 0x202f), (0x205f, 0x205f), (0x3000, 0x3000)]

/-- White space: the space, the five controls from tab to carriage return, and the wide ones. -/
def isBlank (c : Char) : Bool :=
  let n := c.toNat
  n == 0x20 || (decide (0x09 ≤ n) && decide (n ≤ 0x0d))
    || wide.any fun r => decide (r.1 ≤ n) && decide (n ≤ r.2)

def trim (p : Char → Bool) (cs : List Char) : List Char :=
  ((cs.dropWhile p).reverse.dropWhile p).reverse

end Blank

end Breadboard
