import Breadboard.Number.Double

/-!
**The shortest decimal of a double.**

A number is written with the fewest digits that read back to it; among those of that length with
the digits nearest to it.

Main definitions:

* `Shortest.readsBack` — a decimal lies among the reals that round to the number;
* `Shortest.select` — the shortest such decimal;
* `Double.render` — its layout, positional from `10 ^ -4` up to `10 ^ 16`.
-/

set_option autoImplicit false
set_option relaxedAutoImplicit false

namespace Breadboard

namespace Shortest

/-- The decimal `digits * 10 ^ exponent`. -/
structure Decimal where
  digits : Nat
  exponent : Int
  deriving DecidableEq

/-- `a * 10 ^ i` compared with `n * 2 ^ j`. -/
def compareScaled (a : Nat) (i : Int) (n : Nat) (j : Int) : Ordering :=
  compare (a * Double.tenTo i.toNat * Double.twoTo (-j).toNat)
    (n * Double.twoTo j.toNat * Double.tenTo (-i).toNat)

/-- The decimal lies between the midpoints to the two neighbours of the number; a midpoint belongs
to the number with the even mantissa.  Below a power of two the neighbour is only half as far. -/
def readsBack (d : Double) (c : Decimal) : Bool :=
  let m := d.mantissa
  let narrow := d.fraction == 0 && decide (1 < d.exponentBits)
  let low := compareScaled c.digits c.exponent (if narrow then 4 * m - 1 else 4 * m - 2)
    (d.exponent - 2)
  let high := compareScaled c.digits c.exponent (4 * m + 2) (d.exponent - 2)
  let even := m % 2 == 0
  (low == .gt || (even && low == .eq)) && (high == .lt || (even && high == .eq))

/-- The least `k` with `m * 2 ^ q < 10 ^ k` for a positive `m`: an estimate by the binary logarithm
is at most two too small. -/
def leading (m : Nat) (q : Int) : Int :=
  let guess : Int := ((m.log2 : Int) + q) * 30103 / 100000
  let fits := fun k : Int => compareScaled 1 k m q == .gt
  if fits guess then guess
  else if fits (guess + 1) then guess + 1
  else guess + 2

/-- The two neighbours of the number among the multiples of `10 ^ g`, the nearer one first. -/
def neighbours (d : Double) (g : Int) : List Decimal :=
  let num := d.magnitude.1 * Double.tenTo (-g).toNat
  let den := d.magnitude.2 * Double.tenTo g.toNat
  let low := num / den
  let near := Double.roundQuotient num den
  if near = low then [⟨low, g⟩, ⟨low + 1, g⟩] else [⟨low + 1, g⟩, ⟨low, g⟩]

/-- The decimal with trailing zeros moved into the exponent; `fuel` bounds their number. -/
def strip : Nat → Decimal → Decimal
  | 0, c => c
  | fuel + 1, c => if c.digits % 10 = 0 then strip fuel ⟨c.digits / 10, c.exponent + 1⟩ else c

/-- **The shortest decimal that reads back** to a positive finite number.  Seventeen digits always
suffice; without them the answer would be the exact value. -/
def select (d : Double) : Decimal :=
  let k := leading d.mantissa d.exponent
  let found := (List.range 17).findSome? fun n : Nat =>
    (neighbours d (k - ((n : Int) + 1))).find? (readsBack d)
  let places := (-d.exponent).toNat
  strip 17 (found.getD ⟨d.mantissa * Double.twoTo d.exponent.toNat * Nat.pow 5 places,
    -(places : Int)⟩)

end Shortest

namespace Double

/-- The digits with the decimal point after the first `point` of them; zeros fill the gap on either
side, and an integer gets one zero after the point. -/
def positional (digits : List Char) (point : Int) : List Char :=
  if point ≤ 0 then
    '0' :: '.' :: (List.replicate (-point).toNat '0' ++ digits)
  else if digits.length ≤ point.toNat then
    digits ++ List.replicate (point.toNat - digits.length) '0' ++ ['.', '0']
  else digits.take point.toNat ++ '.' :: digits.drop point.toNat

/-- One digit, the point and the remaining digits if there are any, and a signed exponent of at
least two digits. -/
def scientific (digits : List Char) (point : Int) : List Char :=
  let e := point - 1
  let exponent := Nat.toDigits 10 e.natAbs
  let fraction := if digits.length ≤ 1 then [] else '.' :: digits.drop 1
  digits.take 1 ++ fraction ++ ['e', if e < 0 then '-' else '+']
    ++ List.replicate (2 - exponent.length) '0' ++ exponent

/-- The text of a number: the shortest digits that read back, positional from `10 ^ -4` up to
`10 ^ 16`, else with an exponent. -/
def render (d : Double) : String :=
  if d.isNaN then "nan"
  else
    let body :=
      if d.isInfinite then ['i', 'n', 'f']
      else if d.mantissa = 0 then ['0', '.', '0']
      else
        let c := Shortest.select d
        let digits := Nat.toDigits 10 c.digits
        let point := (digits.length : Int) + c.exponent
        if -4 < point ∧ point ≤ 16 then positional digits point else scientific digits point
    String.ofList (if d.isNegative then '-' :: body else body)

end Double

end Breadboard
