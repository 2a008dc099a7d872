import Breadboard.Sorted
import Mathlib.Data.List.Sort

/-!
**Increasing lists.**

An increasing list is known by its members.  So a sorted list is described by saying that it is
increasing, and which its members are.

Main results:

* `Sorted.isOrder_textLt` — texts are ordered strictly and totally;
* `Sorted.eq_of_mem_iff` — increasing lists with the same members are the same;
* `Sorted.ofList_eq_iff` — **what sorting a list makes of it**.
-/

set_option autoImplicit false
set_option relaxedAutoImplicit false

namespace Breadboard

namespace Sorted

universe u

/-- The order of texts is a strict total order. -/
theorem isOrder_textLt : IsOrder textLt where
  asymm a b h := by
    simp only [textLt, decide_eq_true_eq, decide_eq_false_iff_not] at *
    exact String.lt_asymm h
  trans a b c h k := by
    simp only [textLt, decide_eq_true_eq] at *
    exact String.lt_trans h k
  total a b h k := by
    simp only [textLt, decide_eq_false_iff_not] at *
    exact String.le_antisymm (String.not_lt.1 k) (String.not_lt.1 h)

variable {α : Type u} {lt : α → α → Bool}

/-- Increasing lists with the same members are the same. -/
theorem eq_of_mem_iff (h : IsOrder lt) {l k : List α} (hl : l.Pairwise fun a b => lt a b = true)
    (hk : k.Pairwise fun a b => lt a b = true) (hmem : ∀ a, a ∈ l ↔ a ∈ k) : l = k := by
  have hirrefl : Std.Irrefl fun a b => lt a b = true := ⟨fun a hlt => by
    rw [h.irrefl a] at hlt
    cases hlt⟩
  have hantisymm : Std.Antisymm fun a b => lt a b = true := ⟨fun a b hab hba => by
    rw [h.asymm a b hab] at hba
    cases hba⟩
  exact hl.eq_of_mem_iff hk hmem

/-- **What sorting a list makes of it**: the increasing list of its members. -/
theorem ofList_eq_iff (h : IsOrder lt) {l k : List α} :
    ofList lt l = k ↔ k.Pairwise (fun a b => lt a b = true) ∧ ∀ a, a ∈ k ↔ a ∈ l := by
  constructor
  · rintro rfl
    exact ⟨pairwise_ofList h l, fun a => mem_ofList h⟩
  · rintro ⟨hk, hmem⟩
    exact eq_of_mem_iff h (pairwise_ofList h l) hk fun a => (mem_ofList h).trans (hmem a).symm

end Sorted

end Breadboard
