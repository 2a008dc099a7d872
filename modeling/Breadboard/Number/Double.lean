/-!
**Double-precision numbers by their bits.**

A document may hold numbers with a fraction.  They are kept as the 64 bits of the binary64 format,
so two of them are equal exactly when they are written the same way, and everything else is decided
in integer arithmetic on mantissa and exponent.

Main definitions:

* `Double.mantissa`, `Double.exponent` — a finite number is `± mantissa * 2 ^ exponent`;
* `Double.truncate` — the integer part, towards zero;
* `Double.isWhole` — the number is an integer;
* `Double.roundEven` — the nearest integer, a half going to the even neighbour;
* `Double.pred` — one less than a number;
* `Double.ofDecimal` — the number nearest to a decimal;
* `Double.ofInt?` — the number nearest to an integer.
-/

set_option autoImplicit false
set_option relaxedAutoImplicit false

namespace Breadboard

/-- The bits of a binary64 number. -/
structure Double where
  bits : UInt64
  deriving DecidableEq, Inhabited

namespace Double

def twoTo (k : Nat) : Nat := Nat.pow 2 k

def tenTo (k : Nat) : Nat := Nat.pow 10 k

def ofFloat (f : Float) : Double := ⟨f.toBits⟩

/-- The number of the machine with these bits. -/
def toFloat (d : Double) : Float := Float.ofBits d.bits

def isNegative (d : Double) : Bool := d.bits.toNat / twoTo 63 == 1

def exponentBits (d : Double) : Nat := d.bits.toNat / twoTo 52 % twoTo 11

def fraction (d : Double) : Nat := d.bits.toNat % twoTo 52

/-- Neither an infinity nor a value that is not a number. -/
def isFinite (d : Double) : Bool := d.exponentBits != 2047

def isInfinite (d : Double) : Bool := d.exponentBits == 2047 && d.fraction == 0

def isNaN (d : Double) : Bool := d.exponentBits == 2047 && d.fraction != 0

def mantissa (d : Double) : Nat :=
  if d.exponentBits = 0 then d.fraction else twoTo 52 + d.fraction

def exponent (d : Double) : Int :=
  if d.exponentBits = 0 then -1074 else (d.exponentBits : Int) - 1075

/-- The absolute value of a finite number as a fraction of naturals. -/
def magnitude (d : Double) : Nat × Nat :=
  (d.mantissa * twoTo d.exponent.toNat, twoTo (-d.exponent).toNat)

def signed (d : Double) (n : Nat) : Int := if d.isNegative then -(n : Int) else n

def truncate (d : Double) : Int := d.signed (d.magnitude.1 / d.magnitude.2)

def isWhole (d : Double) : Bool := d.isFinite && d.magnitude.1 % d.magnitude.2 == 0

/-- The quotient of naturals rounded to the nearest integer, a half to the even one. -/
def roundQuotient (num den : Nat) : Nat :=
  let q := num / den
  let r := 2 * (num % den)
  if r < den then q
  else if den < r then q + 1
  else if q % 2 = 0 then q
  else q + 1

/-- The integer nearest to a finite number, a half going to the even neighbour. -/
def roundEven (d : Double) : Int := d.signed (roundQuotient d.magnitude.1 d.magnitude.2)

def equalsInt (d : Double) (i : Int) : Bool := d.isWhole && d.truncate == i

def infinity : Double := ⟨0x7FF0000000000000⟩

/-- The canonical value that is not a number. -/
def nan : Double := ⟨0x7FF8000000000000⟩

def zero : Double := ⟨0⟩

def negate (d : Double) : Double := ⟨d.bits ^^^ 0x8000000000000000⟩

/-- The number nearest to `n / 2 ^ places` for a positive `n`, a half going to the number with the
even mantissa.  The last of its 53 bits counts units of `2 ^ unit`; a mantissa that is rounded up
to 54 bits carries over into the exponent. -/
def ofDyadic (n places : Nat) : Double :=
  let unit : Int := max ((n.log2 : Int) - places - 52) (-1074)
  let mantissa := roundQuotient (n * twoTo (-unit - places).toNat) (twoTo (unit + places).toNat)
  ⟨UInt64.ofNat (min ((unit + 1074).toNat * twoTo 52 + mantissa) infinity.bits.toNat)⟩

def pred (d : Double) : Double :=
  if !d.isFinite then d
  else
    let places := (-d.exponent).toNat
    let difference := d.signed d.magnitude.1 - twoTo places
    if difference = 0 then zero
    else if difference < 0 then (ofDyadic difference.natAbs places).negate
    else ofDyadic difference.natAbs places

/-- The number nearest to `digits * 10 ^ exponent`.  Beyond 400 decimal places on either side the
answer is an infinity or zero, whatever the digits. -/
def ofDecimal (digits : Nat) (exponent : Int) : Double :=
  let leading : Int := (Nat.toDigits 10 digits).length + exponent
  if digits = 0 then zero
  else if leading > 400 then infinity
  else if leading < -400 then zero
  else ofFloat (Float.ofScientific digits (decide (exponent < 0)) exponent.natAbs)

def ofInt? (i : Int) : Option Double :=
  let d := ofDecimal i.natAbs 0
  if d.isFinite then some (if i < 0 then d.negate else d) else none

end Double

end Breadboard
