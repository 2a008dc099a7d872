import Breadboard.Number.Double

/-!
**Integers and doubles together.**

A quantity is an integer or a double.  Two integers are combined exactly; as soon as a double takes
part, the integer beside it becomes a double first, which may be out of their range.  Comparisons
are exact in every case.

Main definitions:

* `Quantity` — an integer or a double;
* `Quantity.add`, `Quantity.sub`, `Quantity.mul` — `none` for an integer beyond the doubles;
* `Quantity.compare?` — how two quantities compare, unless one of them is not a number;
* `Quantity.remainder?` — the remainder of an integer, as a fraction.

Main results:

* `Quantity.compare?_whole` — **integers compare as integers**.
-/

set_option autoImplicit false
set_option relaxedAutoImplicit false

namespace Breadboard

/-- An integer or a double. -/
inductive Quantity where
  | whole (value : Int)
  | real (value : Double)
  deriving DecidableEq, Inhabited

namespace Quantity

/-- The nearest double, unless that is infinite. -/
def toDouble? : Quantity → Option Double
  | whole i => Double.ofInt? i
  | real d => some d

/-- Integers are combined exactly, doubles with rounding. -/
def combine (exact : Int → Int → Int) (rounded : Float → Float → Float) :
    Quantity → Quantity → Option Quantity
  | whole i, whole j => some (whole (exact i j))
  | a, b => do
      let x ← a.toDouble?
      let y ← b.toDouble?
      pure (real (.ofFloat (rounded x.toFloat y.toFloat)))

def add : Quantity → Quantity → Option Quantity := combine (· + ·) (· + ·)

def sub : Quantity → Quantity → Option Quantity := combine (· - ·) (· - ·)

def mul : Quantity → Quantity → Option Quantity := combine (· * ·) (· * ·)

/-! ### Comparisons -/

def fraction? : Quantity → Option (Int × Nat)
  | whole i => some (i, 1)
  | real d => if d.isFinite then some (d.signed d.magnitude.1, d.magnitude.2) else none

/-- The quantity is less than zero, or the infinity that is. -/
def isNegative : Quantity → Bool
  | whole i => decide (i < 0)
  | real d => d.isNegative

def isNaN : Quantity → Bool
  | whole _ => false
  | real d => d.isNaN

def compare? (a b : Quantity) : Option Ordering :=
  if a.isNaN || b.isNaN then none
  else some (match a.fraction?, b.fraction? with
    | some (n, d), some (m, e) => compare (n * e) (m * d)
    | some _, none => if b.isNegative then .gt else .lt
    | none, some _ => if a.isNegative then .lt else .gt
    | none, none => compare b.isNegative a.isNegative)

/-- The first quantity is less than the second. -/
def isLess (a b : Quantity) : Bool := a.compare? b == some .lt

theorem isLess_whole (i j : Int) : isLess (whole i) (whole j) = decide (i < j) := by
  have hcompare : compare? (whole i) (whole j) = some (compare (i * 1) (j * 1)) := rfl
  rw [isLess, hcompare, Int.mul_one, Int.mul_one, Bool.eq_iff_iff]
  simp [Int.compare_eq_lt]

/-- The first quantity is less than the second or equal to it. -/
def isAtMost (a b : Quantity) : Bool := a.isLess b || a.compare? b == some .eq

def equals (a b : Quantity) : Bool := a.compare? b == some .eq

/-- The remainder of an integer by a quantity that is not zero, with the sign of the quantity, as a
fraction.  By a quantity that is not finite there is none. -/
def remainder? (i : Int) (q : Quantity) : Option (Int × Nat) :=
  q.fraction?.map fun (n, d) => (Int.fmod (i * d) n, d)

/-- **Integers compare as integers.** -/
@[simp] theorem compare?_whole (i j : Int) : (whole i).compare? (whole j) = some (compare i j) := by
  simp [compare?, isNaN, fraction?]

end Quantity

end Breadboard
