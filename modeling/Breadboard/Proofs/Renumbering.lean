import Breadboard.Renumbering
import Mathlib.Data.Option.Basic

/-!
**Tables of new numbers.**

A table gives units new numbers or none.  A table that numbers exactly the marked units keeps the
references to marked units, as many of them as there were, and drops all others.

Main definitions:

* `Renumbering.image` — the new number of a unit;
* `Renumbering.rank` — the number of marked units before a unit;
* `Renumbering.Numbers` — a table that numbers exactly the marked units.

Main results:

* `Renumbering.byTable_eq_ok` — references in range are renumbered without failure;
* `Renumbering.rank_inj` — **different marked units have different ranks**;
* `Renumbering.numbers_keep`, `Renumbering.numbers_keepInPlace` — the two ways to number them;
* `Renumbering.count_filterMap_image` — **references to a marked unit stay as many as they were**.
-/

set_option autoImplicit false
set_option relaxedAutoImplicit false

namespace Breadboard

namespace Renumbering

/-! ### New numbers -/

/-- The new number of a unit, none if it is removed. -/
def image (table : List (Option Int)) (i : Int) : Option Int := (table[i.toNat]?).join

/-- References in range have an answer. -/
theorem byTable_eq_ok {table : List (Option Int)} {ids : List Int}
    (h : ∀ i ∈ ids, 0 ≤ i ∧ i < table.length) :
    byTable table ids = .ok (ids.filterMap (image table)) := by
  have hentries : ids.mapM (Index.get? table) = some (ids.map fun i => image table i) := by
    induction ids with
    | nil => rfl
    | cons i rest ih =>
        obtain ⟨h0, hlt⟩ := h i List.mem_cons_self
        have hi : i.toNat < table.length := by omega
        rw [List.mapM_cons, ih fun j hj => h j (List.mem_cons_of_mem i hj), Index.get?_of_lt h0 hlt]
        simp [image, List.getElem?_eq_getElem hi]
  rw [byTable, hentries]
  simp [List.filterMap_map]

/-- The number of marked units before a unit. -/
def rank (flags : List Bool) (i : Nat) : Nat := (flags.take i).count true

theorem rank_zero (flags : List Bool) : rank flags 0 = 0 := rfl

theorem rank_cons_succ (flag : Bool) (flags : List Bool) (i : Nat) :
    rank (flag :: flags) (i + 1) = (if flag then 1 else 0) + rank flags i := by
  cases flag <;> simp [rank, Nat.add_comm]

/-- Later units have higher ranks than a marked one. -/
theorem rank_lt_rank {flags : List Bool} {i j : Nat} (hi : flags[i]? = some true) (h : i < j) :
    rank flags i < rank flags j := by
  induction flags generalizing i j with
  | nil => cases hi
  | cons flag flags ih =>
      obtain ⟨j, rfl⟩ : ∃ k, j = k + 1 := ⟨j - 1, by omega⟩
      rw [rank_cons_succ]
      cases i with
      | zero =>
          obtain rfl : flag = true := Option.some.inj hi
          rw [rank_zero, if_pos rfl]
          omega
      | succ i =>
          rw [rank_cons_succ]
          have := ih (i := i) (j := j) hi (by omega)
          omega

/-- **Different marked units have different ranks.** -/
theorem rank_inj {flags : List Bool} {i j : Nat} (hi : flags[i]? = some true)
    (hj : flags[j]? = some true) (h : rank flags i = rank flags j) : i = j := by
  rcases Nat.lt_trichotomy i j with hlt | heq | hlt
  · have := rank_lt_rank hi hlt
    omega
  · exact heq
  · have := rank_lt_rank hj hlt
    omega

/-! ### Tables of marked units -/

/-- The table gives numbers to the marked units, and to no others. -/
def Numbers (table : List (Option Int)) (flags : List Bool) (number : Nat → Nat) : Prop :=
  ∀ i : Int, image table i
    = if flags[i.toNat]? = some true then some (number i.toNat : Int) else none

theorem getElem?_keepFrom (next : Int) (flags : List Bool) (i : Nat) :
    (keepFrom next flags)[i]?
      = (flags[i]?).map fun flag => if flag then some (next + rank flags i) else none := by
  induction flags generalizing next i with
  | nil => rfl
  | cons flag flags ih =>
      cases i with
      | zero => cases flag <;> simp [keepFrom, rank_zero]
      | succ i =>
          rw [rank_cons_succ]
          cases flag with
          | true =>
              rw [keepFrom, List.getElem?_cons_succ, List.getElem?_cons_succ, ih]
              simp [Int.add_assoc]
          | false =>
              rw [keepFrom, List.getElem?_cons_succ, List.getElem?_cons_succ, ih]
              simp

/-- Keeping the marked units gives them their ranks. -/
theorem numbers_keep (flags : List Bool) : Numbers (keep flags) flags (rank flags) := by
  intro i
  rw [image, keep, getElem?_keepFrom]
  cases h : flags[i.toNat]? with
  | none => rfl
  | some flag => cases flag <;> simp

/-- Keeping the marked units in place gives them the numbers that they have. -/
theorem numbers_keepInPlace (flags : List Bool) : Numbers (keepInPlace flags) flags id := by
  intro i
  rw [image, keepInPlace, List.getElem?_map, List.getElem?_zipIdx]
  cases h : flags[i.toNat]? with
  | none => rfl
  | some flag => cases flag <;> simp

/-- References to a unit that is kept stay as many as they were. -/
theorem count_filterMap_image {table : List (Option Int)} {flags : List Bool} {number : Nat → Nat}
    (h : Numbers table flags number)
    (hinj : ∀ i j, flags[i]? = some true → flags[j]? = some true → number i = number j → i = j)
    {ids : List Int} (hids : ∀ i ∈ ids, 0 ≤ i) {j : Nat} (hj : flags[j]? = some true) :
    (ids.filterMap (image table)).count (number j : Int) = ids.count (j : Int) := by
  rw [List.count_filterMap, List.count_eq_countP]
  refine List.countP_congr fun i hi => ?_
  have h0 := hids i hi
  rw [h i, beq_iff_eq, beq_iff_eq]
  by_cases hflag : flags[i.toNat]? = some true
  · rw [if_pos hflag, Option.some_inj, Int.natCast_inj]
    constructor
    · intro e
      have := hinj i.toNat j hflag hj e
      omega
    · intro e
      rw [e, Int.toNat_natCast]
  · rw [if_neg hflag]
    constructor
    · intro e
      cases e
    · intro e
      rw [e, Int.toNat_natCast] at hflag
      exact absurd hj hflag

/-- References to kept units only are renumbered one by one. -/
theorem map_toNat_filterMap_image {table : List (Option Int)} {flags : List Bool}
    {number : Nat → Nat} (h : Numbers table flags number) {ids : List Int}
    (hids : ∀ i ∈ ids, flags[i.toNat]? = some true) :
    (ids.filterMap (image table)).map Int.toNat = (ids.map Int.toNat).map number := by
  induction ids with
  | nil => rfl
  | cons i rest ih =>
      have hi : image table i = some (number i.toNat : Int) := by
        rw [h i, if_pos (hids i List.mem_cons_self)]
      rw [List.filterMap_cons, hi]
      simp [ih fun j hj => hids j (List.mem_cons_of_mem i hj)]

end Renumbering

end Breadboard
