/-!
**Signed 64-bit words.**

Rotations are carried out in word arithmetic: a coordinate has to fit into a word, and a result
that leaves the range comes back modulo `2 ^ 64`.

Main definitions:

* `Word.fits` — the integers a word can hold;
* `Word.wrap` — the representative of an integer modulo `2 ^ 64` in that range.

Main results:

* `Word.wrap_of_fits` — what fits is not changed by wrapping;
* `Word.fits_wrap` — **a wrapped integer fits**.
-/

set_option autoImplicit false
set_option relaxedAutoImplicit false

namespace Breadboard

namespace Word

def fits (v : Int) : Bool :=
  decide (-9223372036854775808 ≤ v) && decide (v < 9223372036854775808)

def wrap (v : Int) : Int := v.bmod 18446744073709551616

theorem fits_iff {v : Int} :
    fits v = true ↔ -9223372036854775808 ≤ v ∧ v < 9223372036854775808 := by
  simp [fits]

/-- What fits is not changed by wrapping. -/
theorem wrap_of_fits {v : Int} (h : fits v = true) : wrap v = v := by
  rw [fits_iff] at h
  unfold wrap
  rw [Int.bmod_def]
  split <;> omega

/-- **A wrapped integer fits.** -/
theorem fits_wrap (v : Int) : fits (wrap v) = true := by
  rw [fits_iff]
  unfold wrap
  rw [Int.bmod_def]
  split <;> omega

end Word

end Breadboard
