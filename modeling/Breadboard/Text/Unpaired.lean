/-!
**Unpaired 16-bit units in texts.**

A document may name half of a surrogate pair without the other half.  Such a unit is no character,
so a text holds the private character of the last plane with the same low 16 bits in its place.

Main definitions:

* `Unpaired.stand` — the character that stands for a unit;
* `Unpaired.unit?` — the unit that a character stands for;
* `Unpaired.occursIn` — a text holds such a character, so that it has no encoding of its own.

Main results:

* `Unpaired.unit?_stand` — **the unit is found again from the character that stands for it**.
-/

set_option autoImplicit false
set_option relaxedAutoImplicit false

namespace Breadboard

namespace Unpaired

/-- The units that stand in pairs: the high ones and behind them the low ones. -/
def isHalf (unit : Nat) : Bool := decide (0xd800 ≤ unit) && decide (unit ≤ 0xdfff)

/-- The first code point of the last plane. -/
def lastPlane : Nat := 0x100000

def stand (unit : Nat) : Char := Char.ofNat (lastPlane + unit)

def unit? (c : Char) : Option Nat :=
  if lastPlane ≤ c.toNat ∧ isHalf (c.toNat - lastPlane) then some (c.toNat - lastPlane) else none

def occursIn (s : String) : Bool := s.toList.any fun c => (unit? c).isSome

/-- **The unit is found again from the character that stands for it.** -/
theorem unit?_stand {unit : Nat} (h : isHalf unit = true) : unit? (stand unit) = some unit := by
  have hrange := h
  simp only [isHalf, Bool.and_eq_true, decide_eq_true_eq] at hrange
  have hvalid : Nat.isValidChar (lastPlane + unit) := by
    right
    simp only [lastPlane]
    omega
  have hcode : (stand unit).toNat = lastPlane + unit := by
    rw [stand, Char.ofNat, dif_pos hvalid]
    rfl
  have hback : lastPlane + unit - lastPlane = unit := Nat.add_sub_cancel_left ..
  rw [unit?, hcode, hback, if_pos ⟨Nat.le_add_right .., h⟩]

end Unpaired

end Breadboard
