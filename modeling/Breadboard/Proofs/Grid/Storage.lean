import Breadboard.Grid.Storage
import Mathlib.Algebra.Order.BigOperators.GroupWithZero.List
import Mathlib.Algebra.Order.Ring.Int
import Mathlib.Tactic.Ring

/-!
**Boxes over which there can be an array.**

The bytes of an array are counted along the axes that are not empty.  For a box with points that is
a bound on the number of its points alone; an empty box may be refused as well, although it needs no
storage.  A box within a box for which there can be an array is another one.

Main definitions:

* `Size.Holdable` — boxes over which there can be an array;
* `Size.HoldableIfEmpty` — boxes that have points, or over which there can be an array;
* `Fault.RefusesBox` — the faults by which a box is refused.

Main results:

* `Size.checkArray_eq_ok_iff`, `Size.checkArray_eq_error` — the check, and how it fails;
* `Size.holdable_iff_of_pos` — **a box with points is refused for the number of its points**;
* `Size.Holdable.mono` — a box within such a box is one.
-/

set_option autoImplicit false
set_option relaxedAutoImplicit false

namespace Breadboard

theorem Point.volume_nonneg {size : Point} (h : size.isSize = true) : 0 ≤ size.volume := by
  obtain ⟨hx, hy, hz⟩ := Point.isSize_iff.1 h
  exact Int.mul_nonneg (Int.mul_nonneg hx hy) hz

/-- The fault of a box over which there can be no array: for an extent, or for its bytes. -/
def Fault.RefusesBox (fault : Fault) : Prop := fault = .extentTooLarge ∨ fault = .boxTooLarge

namespace Size

/-- There can be an array over a box: its extents are words, and so are eight bytes for each point
along the axes that are not empty. -/
structure Holdable (s : Size) : Prop where
  extents : ∀ n ∈ s.extents.toList, n < 2 ^ 63
  bytes : 8 * (s.extents.toList.filter fun n => n != 0).prod < 2 ^ 63

/-- A box that has points, or over which there can be an array. -/
def HoldableIfEmpty (s : Size) : Prop := s.extents.volume = 0 → s.Holdable

variable {s t : Size}

theorem nonneg_of_mem (s : Size) : ∀ n ∈ s.extents.toList, 0 ≤ n := by
  obtain ⟨hx, hy, hz⟩ := Point.isSize_iff.1 s.isSize
  simpa [Point.toList] using ⟨hx, hy, hz⟩

theorem bytes_eq (s : Size) : (s.extents.toList.filter fun n => n != 0).foldl (· * ·) bytesPerValue
    = 8 * (s.extents.toList.filter fun n => n != 0).prod :=
  List.foldl_eq_apply_foldr

theorem fits_bytes_iff (s : Size) :
    Word.fits (8 * (s.extents.toList.filter fun n => n != 0).prod) = true
      ↔ 8 * (s.extents.toList.filter fun n => n != 0).prod < 2 ^ 63 := by
  have hprod : 0 ≤ (s.extents.toList.filter fun n => n != 0).prod :=
    List.prod_nonneg fun n hn => s.nonneg_of_mem n (List.mem_filter.1 hn).1
  rw [Word.fits_iff]
  omega

theorem fits_extents_iff (s : Size) :
    s.extents.toList.all Word.fits = true ↔ ∀ n ∈ s.extents.toList, n < 2 ^ 63 := by
  rw [List.all_eq_true]
  refine forall₂_congr fun n hn => ?_
  have := s.nonneg_of_mem n hn
  rw [Word.fits_iff]
  omega

theorem checkArray_eq_ok_iff : s.checkArray = .ok () ↔ s.Holdable := by
  unfold checkArray
  simp only [bytes_eq]
  constructor
  · intro h
    split at h
    · cases h
    · rename_i hall
      split at h
      · cases h
      · rename_i hfits
        exact ⟨s.fits_extents_iff.1 (by simpa using hall), s.fits_bytes_iff.1 (by simpa using hfits)⟩
  · intro h
    rw [s.fits_extents_iff.2 h.extents, s.fits_bytes_iff.2 h.bytes]
    rfl

theorem checkArray_eq_error (h : ¬ s.Holdable) :
    ∃ fault, fault.RefusesBox ∧ s.checkArray = .error fault := by
  rw [← checkArray_eq_ok_iff] at h
  revert h
  unfold checkArray
  simp only []
  split
  · exact fun _ => ⟨_, .inl rfl, rfl⟩
  · split
    · exact fun _ => ⟨_, .inr rfl, rfl⟩
    · exact fun h => absurd rfl h

instance : Decidable s.Holdable :=
  decidable_of_iff (s.checkArray.isOk = true) <| by
    rw [← checkArray_eq_ok_iff]
    cases s.checkArray <;> simp [Except.isOk, Except.toBool]

theorem checkEmpty_eq_ok_iff : s.checkEmpty = .ok () ↔ s.HoldableIfEmpty := by
  unfold checkEmpty HoldableIfEmpty
  split
  · rename_i hvolume
    rw [checkArray_eq_ok_iff]
    exact ⟨fun h _ => h, fun h => h hvolume⟩
  · rename_i hvolume
    exact ⟨fun _ h => absurd h hvolume, fun _ => rfl⟩

theorem checkEmpty_eq_error (h : ¬ s.HoldableIfEmpty) :
    ∃ fault, fault.RefusesBox ∧ s.checkEmpty = .error fault := by
  unfold HoldableIfEmpty at h
  push Not at h
  rw [checkEmpty, if_pos h.1]
  exact checkArray_eq_error h.2

theorem Holdable.ifEmpty (h : s.Holdable) : s.HoldableIfEmpty := fun _ => h

theorem holdableIfEmpty_of_pos (h : 0 < s.extents.volume) : s.HoldableIfEmpty :=
  fun hvolume => absurd hvolume (Int.ne_of_gt h)

theorem holdable_one : one.Holdable := by decide

/-- The points along the axes that are not empty. -/
theorem prod_filter_eq (p : Point) : (p.toList.filter fun n => n != 0).prod
    = (if p.x = 0 then 1 else p.x) * (if p.y = 0 then 1 else p.y) * (if p.z = 0 then 1 else p.z) := by
  obtain ⟨x, y, z⟩ := p
  by_cases hx : x = 0 <;> by_cases hy : y = 0 <;> by_cases hz : z = 0 <;>
    simp [Point.toList, hx, hy, hz, mul_assoc]

/-- **A box with points is refused exactly for the number of its points.** -/
theorem holdable_iff_of_pos (h : 0 < s.extents.volume) :
    s.Holdable ↔ s.extents.volume < 2 ^ 60 := by
  obtain ⟨⟨x, y, z⟩, hsize⟩ := s
  obtain ⟨hx, hy, hz⟩ := Point.isSize_iff.1 hsize
  simp only [Point.volume] at h hx hy hz ⊢
  have hx : 0 < x := lt_of_le_of_ne hx fun e => by simp [← e] at h
  have hy : 0 < y := lt_of_le_of_ne hy fun e => by simp [← e] at h
  have hz : 0 < z := lt_of_le_of_ne hz fun e => by simp [← e] at h
  have hxy : 0 < x * y := mul_pos hx hy
  have hprod := prod_filter_eq ⟨x, y, z⟩
  simp only [hx.ne', hy.ne', hz.ne', if_false] at hprod
  constructor
  · intro hholds
    have hbytes := hholds.bytes
    rw [hprod] at hbytes
    omega
  · intro hvolume
    -- no extent is greater than the number of points
    have hxle : x ≤ x * y := le_mul_of_one_le_right hx.le hy
    have hyle : y ≤ x * y := le_mul_of_one_le_left hy.le hx
    have hxyle : x * y ≤ x * y * z := le_mul_of_one_le_right hxy.le hz
    have hzle : z ≤ x * y * z := le_mul_of_one_le_left hz.le hxy
    refine ⟨?_, ?_⟩
    · simp only [Point.toList, List.forall_mem_cons]
      exact ⟨by omega, by omega, by omega, by simp⟩
    · rw [hprod]
      omega

/-- A box within a box over which there can be an array is one. -/
theorem Holdable.mono (h : t.Holdable) (hx : s.extents.x ≤ t.extents.x)
    (hy : s.extents.y ≤ t.extents.y) (hz : s.extents.z ≤ t.extents.z) : s.Holdable := by
  obtain ⟨hx0, hy0, hz0⟩ := Point.isSize_iff.1 s.isSize
  have hextents := h.extents
  have hbytes := h.bytes
  rw [prod_filter_eq] at hbytes
  simp only [Point.toList, List.forall_mem_cons] at hextents
  refine ⟨?_, ?_⟩
  · simp only [Point.toList, List.forall_mem_cons]
    exact ⟨by omega, by omega, by omega, by simp⟩
  · -- along each axis the inner box has no more points, and at least one is counted
    have hfactor : ∀ {m n : Int}, 0 ≤ m → m ≤ n →
        0 < (if m = 0 then 1 else m) ∧ (if m = 0 then 1 else m) ≤ (if n = 0 then 1 else n) := by
      intro m n hm hmn
      constructor <;> split <;> (try split) <;> omega
    obtain ⟨hxpos, hxle⟩ := hfactor hx0 hx
    obtain ⟨hypos, hyle⟩ := hfactor hy0 hy
    obtain ⟨hzpos, hzle⟩ := hfactor hz0 hz
    have hle := mul_le_mul (mul_le_mul hxle hyle hypos.le (hxpos.le.trans hxle)) hzle hzpos.le
      (mul_nonneg (hxpos.le.trans hxle) (hypos.le.trans hyle))
    rw [prod_filter_eq]
    omega

end Size

end Breadboard
