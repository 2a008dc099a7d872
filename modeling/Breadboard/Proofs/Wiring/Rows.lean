import Breadboard.Preset.Design
import Breadboard.Proofs.Circuit.InRange
import Breadboard.Proofs.Grid.Storage

/-!
**Slots that are rows.**

The slots of words are rows of points along `x`.  Between rows, a wiring of equal points connects
place by place and a shifted wiring connects every place to the next one, as far as both rows reach.

Main definitions:

* `Slot.IsRow` — a slot of size `(n, 1, 1)` with given units behind its points;
* `SlotPlan.rowFault` — how a row is refused that is too long.

Main results:

* `SlotPlan.holdable_wordSize_iff` — there can be an array over a row of fewer than `2 ^ 60` places;
* `Slot.IsRow.items_eq` — the points of a row with their units;
* `Frame.liftPairs_straight_row`, `Frame.liftPairs_shift_row` — **the pairs of places between two
  rows**.
-/

set_option autoImplicit false
set_option relaxedAutoImplicit false

namespace Breadboard

/-- Lists joined over the places of a row, all but one of which are empty. -/
theorem Row.flatMap_range_eq {β : Type} {f : Nat → List β} {n k : Nat} (hk : k < n)
    (h : ∀ x < n, x ≠ k → f x = []) : (List.range n).flatMap f = f k := by
  induction n with
  | zero => exact absurd hk (Nat.not_lt_zero k)
  | succ n ih =>
      rw [List.range_succ, List.flatMap_append, List.flatMap_singleton]
      rcases Nat.lt_or_ge k n with hlt | hge
      · have hlast : f n = [] := h n (Nat.lt_succ_self n) (Nat.ne_of_gt hlt)
        rw [hlast, List.append_nil]
        exact ih hlt fun x hx => h x (Nat.lt_succ_of_lt hx)
      · obtain rfl : k = n := by omega
        have hbefore : (List.range k).flatMap f = [] :=
          List.flatMap_eq_nil_iff.2 fun x hx => by
            have hx := List.mem_range.1 hx
            exact h x (Nat.lt_succ_of_lt hx) (Nat.ne_of_lt hx)
        rw [hbefore, List.nil_append]

theorem Row.length_flatMap_range_le {β : Type} {f : Nat → List β} {n k : Nat}
    (h : ∀ x < n, x ≠ k → f x = []) : ((List.range n).flatMap f).length ≤ (f k).length := by
  by_cases hk : k < n
  · exact Nat.le_of_eq (congrArg List.length (Row.flatMap_range_eq hk h))
  · have hnil : (List.range n).flatMap f = [] := List.flatMap_eq_nil_iff.2 fun x hx => by
      have hx := List.mem_range.1 hx
      exact h x hx (by omega)
    rw [hnil]
    exact Nat.zero_le _

namespace Point

/-- The points of a row. -/
theorem isInside_row {p : Point} {n : Nat} :
    p.isInside ⟨n, 1, 1⟩ = true ↔ ∃ x : Nat, x < n ∧ p = ⟨x, 0, 0⟩ := by
  obtain ⟨a, b, c⟩ := p
  simp only [isInside_iff, mk.injEq]
  constructor
  · rintro ⟨⟨h0, h⟩, _, _⟩
    exact ⟨a.toNat, by omega, by omega, by omega, by omega⟩
  · rintro ⟨x, hx, rfl, rfl, rfl⟩
    omega

theorem isInside_row_iff {x n : Nat} :
    (⟨x, 0, 0⟩ : Point).isInside ⟨n, 1, 1⟩ = true ↔ x < n := by
  simp only [isInside_iff]
  omega

end Point

/-! ### The sizes of rows -/

namespace SlotPlan

variable {n : Nat}

theorem volume_wordSize (n : Nat) : (wordSize n).extents.volume = n := by
  simp [wordSize, Point.volume]

/-- There can be an array over a row of fewer than `2 ^ 60` places. -/
theorem holdable_wordSize_iff : (wordSize n).Holdable ↔ n < 2 ^ 60 := by
  rcases Nat.eq_zero_or_pos n with rfl | hpos
  · exact iff_of_true (by decide) (by decide)
  · rw [Size.holdable_iff_of_pos (by rw [volume_wordSize]; omega), volume_wordSize]
    omega

/-- No row is refused for being empty. -/
theorem holdableIfEmpty_wordSize (n : Nat) : (wordSize n).HoldableIfEmpty := by
  intro hvolume
  rw [volume_wordSize] at hvolume
  exact holdable_wordSize_iff.2 (by omega)

/-- How a row is refused that is too long: for the number of its bytes, or even for its extent. -/
def rowFault (n : Nat) : Fault := if n < 2 ^ 63 then .boxTooLarge else .extentTooLarge

theorem checkArray_wordSize (hn : 2 ^ 60 ≤ n) :
    (wordSize n).checkArray = .error (rowFault n) := by
  have hextents : (wordSize n).extents.toList.all Word.fits = decide (n < 2 ^ 63) := by
    rw [Bool.eq_iff_iff, Size.fits_extents_iff]
    simp only [wordSize, Point.toList, List.forall_mem_cons, List.not_mem_nil, false_implies,
      implies_true, and_true, decide_eq_true_eq]
    omega
  have hbytes : Word.fits (8 * ((wordSize n).extents.toList.filter fun v => v != 0).prod)
      = false := by
    have hpos : ¬ n = 0 := by omega
    have hprod : ((wordSize n).extents.toList.filter fun v => v != 0).prod = n := by
      rw [Size.prod_filter_eq]
      simp [wordSize, hpos]
    rw [← Bool.not_eq_true, Size.fits_bytes_iff, hprod]
    omega
  simp only [Size.checkArray, Size.bytes_eq, hextents, hbytes, rowFault]
  by_cases hword : n < 2 ^ 63
  · rw [decide_eq_true hword, if_pos hword]
    rfl
  · rw [decide_eq_false hword, if_neg hword]
    rfl

end SlotPlan

namespace Slot

/-- A row of `n` points, with the units `f x` behind the point `x`. -/
structure IsRow (s : Slot) (n : Nat) (f : Nat → List Int) : Prop where
  size_eq : s.size = ⟨n, 1, 1⟩
  get?_eq : ∀ x < n, s.ids.get? ⟨x, 0, 0⟩ = some (f x)

/-- A slot of one point is a row of one point. -/
theorem isRow_one {s : Slot} {ids : List Int} (hsize : s.size = .one)
    (hids : s.ids.get? .origin = some ids) : s.IsRow 1 fun _ => ids := by
  refine ⟨hsize, fun x hx => ?_⟩
  obtain rfl : x = 0 := by omega
  exact hids

namespace IsRow

variable {s : Slot} {n : Nat} {f : Nat → List Int}

theorem getPoint_eq (h : s.IsRow n f) {x : Nat} (hx : x < n) : s.getPoint ⟨x, 0, 0⟩ = f x := by
  rw [getPoint, h.get?_eq x hx]
  rfl

/-- The points of a row with their units. -/
theorem items_eq (h : s.IsRow n f) :
    s.ids.items = (List.range n).map fun (x : Nat) => ((⟨x, 0, 0⟩ : Point), f x) := by
  have hsize : s.ids.size = ⟨n, 1, 1⟩ := h.size_eq
  have hbox : s.ids.size.box = (List.range n).map fun (x : Nat) => (⟨x, 0, 0⟩ : Point) := by
    rw [hsize, Point.box_row]
  rw [Dense.items_eq, hbox, List.filterMap_map, ← List.filterMap_eq_map']
  refine List.filterMap_congr fun x hx => ?_
  rw [Function.comp_apply, h.get?_eq x (List.mem_range.1 hx)]
  rfl

/-- The whole row as a sector. -/
theorem getSector?_whole (h : s.IsRow n f) :
    s.getSector? wholeSector = some ⟨⟨(0 : Nat), 0, 0⟩, ⟨n, 1, 1⟩, s.kind⟩ := by
  rw [getSector?_wholeSector, whole, h.size_eq]
  rfl

/-- The units of a row are among those behind its points. -/
theorem inRange (h : s.IsRow n f) {m : Nat} (hf : ∀ x < n, ∀ i ∈ f x, 0 ≤ i ∧ i < m) :
    s.InRange m := by
  intro p i hi
  cases hp : p.isInside s.ids.size with
  | false => rw [getPoint, Dense.get?_eq_none hp] at hi; cases hi
  | true =>
      have hsize : s.ids.size = ⟨n, 1, 1⟩ := h.size_eq
      rw [hsize] at hp
      obtain ⟨x, hx, rfl⟩ := Point.isInside_row.1 hp
      rw [h.getPoint_eq hx] at hi
      exact hf x hx i hi

end IsRow

end Slot

/-- The slot of a row of units. -/
theorem Circuit.isRow_cubeSlot (n : Nat) (kind : String) :
    (cubeSlot (SlotPlan.wordSize n) kind).IsRow n fun (x : Nat) => [(x : Int)] := by
  refine ⟨rfl, fun x hx => ?_⟩
  rw [cubeSlot, Dense.get?_ofFn]
  · simp [Point.boxIndex, SlotPlan.wordSize]
  · exact Point.isInside_row_iff.2 hx

/-! ### Pairs of places -/

namespace Wiring

/-- Equal places of two rows. -/
theorem pairs_straight_row (n m : Nat) :
    straight.pairs ⟨n, 1, 1⟩ ⟨m, 1, 1⟩ = .ok ((List.range (min n m)).map fun (x : Nat) =>
      ((⟨x, 0, 0⟩ : Point), (⟨x, 0, 0⟩ : Point))) := by
  have hmeet : Point.meet ⟨n, 1, 1⟩ ⟨m, 1, 1⟩ = ⟨(min n m : Nat), 1, 1⟩ := by
    simp only [Point.meet, Point.mk.injEq]
    omega
  rw [pairs, straightPairs, hmeet, Point.box_row, List.map_map]
  rfl

/-- Every place of a row with the next one. -/
theorem pairs_shift_row (n : Nat) (stop : Point) :
    (shift ⟨1, 0, 0⟩).pairs ⟨n, 1, 1⟩ stop = .ok ((List.range n).map fun (x : Nat) =>
      ((⟨x, 0, 0⟩ : Point), (⟨(x + 1 : Nat), 0, 0⟩ : Point))) := by
  have himages : (Point.box ⟨n, 1, 1⟩).mapM (fun p =>
      (do pure ((← (Except.ok (some (p + ⟨1, 0, 0⟩)) : Except Fault (Option Point))).map
        fun q => (p, q)) : Except Fault (Option Pair)))
        = .ok ((Point.box ⟨n, 1, 1⟩).map fun p => some (p, p + ⟨1, 0, 0⟩)) :=
    Loop.mapM_eq_map fun p _ => rfl
  show mapPairs (fun p _ _ => .ok (some (p + ⟨1, 0, 0⟩))) ⟨n, 1, 1⟩ stop = _
  unfold mapPairs
  rw [himages, Point.box_row]
  simp only [bind, Except.bind, pure, Except.pure, List.filterMap_map, List.map_map]
  rw [← List.filterMap_eq_map']
  rfl

end Wiring

namespace Frame

/-- A place of a row inside a longer row. -/
theorem lift?_row {k w n : Nat} (hfit : k + w ≤ n) (x : Nat) :
    lift? ⟨⟨k, 0, 0⟩, ⟨w, 1, 1⟩, ⟨n, 1, 1⟩⟩ ⟨x, 0, 0⟩
      = if x < w then some ⟨(k + x : Nat), 0, 0⟩ else none := by
  have hsum : (⟨x, 0, 0⟩ : Point) + ⟨k, 0, 0⟩ = ⟨(k + x : Nat), 0, 0⟩ := by
    simp only [Point.add_def, Point.mk.injEq]
    omega
  simp only [lift?, hsum]
  by_cases hx : x < w
  · have hin : (⟨x, 0, 0⟩ : Point).isInside ⟨w, 1, 1⟩ = true := Point.isInside_row_iff.2 hx
    have hout : (⟨(k + x : Nat), 0, 0⟩ : Point).isInside ⟨n, 1, 1⟩ = true :=
      Point.isInside_row_iff.2 (by omega)
    rw [hin, hout, if_pos hx]
    rfl
  · have hin : (⟨x, 0, 0⟩ : Point).isInside ⟨w, 1, 1⟩ = false := by
      rw [← Bool.not_eq_true, Point.isInside_row_iff]
      exact hx
    rw [hin, if_neg hx]
    rfl

/-- The pairs of a list that count. -/
theorem liftPairs_map {α : Type} (start stop : Frame) (l : List α) (p q : α → Point) :
    liftPairs start stop (l.map fun a => (p a, q a))
      = l.filterMap fun a => (start.lift? (p a)).bind fun s =>
          (stop.lift? (q a)).map fun e => (s, e) := by
  rw [liftPairs, List.filterMap_map]
  refine List.filterMap_congr fun a _ => ?_
  cases hs : start.lift? (p a) <;> cases he : stop.lift? (q a) <;> simp [hs, he]

/-- Equal places of two rows inside longer rows. -/
theorem liftPairs_straight_row {k w n q v m : Nat} (hstart : k + w ≤ n) (hstop : q + v ≤ m) :
    liftPairs ⟨⟨k, 0, 0⟩, ⟨w, 1, 1⟩, ⟨n, 1, 1⟩⟩ ⟨⟨q, 0, 0⟩, ⟨v, 1, 1⟩, ⟨m, 1, 1⟩⟩
        ((List.range (min w v)).map fun (x : Nat) => ((⟨x, 0, 0⟩ : Point), (⟨x, 0, 0⟩ : Point)))
      = (List.range (min w v)).map fun (x : Nat) =>
          ((⟨(k + x : Nat), 0, 0⟩ : Point), (⟨(q + x : Nat), 0, 0⟩ : Point)) := by
  rw [liftPairs_map, ← List.filterMap_eq_map']
  refine List.filterMap_congr fun x hx => ?_
  have hx := List.mem_range.1 hx
  have hw : x < w := by omega
  have hv : x < v := by omega
  rw [lift?_row hstart, lift?_row hstop, if_pos hw, if_pos hv]
  rfl

/-- Every place of a row with the next one, except the last. -/
theorem liftPairs_shift_row {k w n q m : Nat} (hstart : k + w ≤ n) (hstop : q + w ≤ m) :
    liftPairs ⟨⟨k, 0, 0⟩, ⟨w, 1, 1⟩, ⟨n, 1, 1⟩⟩ ⟨⟨q, 0, 0⟩, ⟨w, 1, 1⟩, ⟨m, 1, 1⟩⟩
        ((List.range w).map fun (x : Nat) =>
          ((⟨x, 0, 0⟩ : Point), (⟨(x + 1 : Nat), 0, 0⟩ : Point)))
      = (List.range (w - 1)).map fun (x : Nat) =>
          ((⟨(k + x : Nat), 0, 0⟩ : Point), (⟨(q + (x + 1) : Nat), 0, 0⟩ : Point)) := by
  rw [liftPairs_map]
  simp only [lift?_row hstart, lift?_row hstop]
  cases w with
  | zero => rfl
  | succ w =>
      -- the last place has no next one
      have hlast : ¬ w + 1 < w + 1 := Nat.lt_irrefl _
      rw [Nat.add_sub_cancel, List.range_succ, List.filterMap_append, List.filterMap_cons_none
        (by rw [if_neg hlast]; simp), List.filterMap_nil, List.append_nil,
        ← List.filterMap_eq_map']
      refine List.filterMap_congr fun x hx => ?_
      have hx := List.mem_range.1 hx
      have hfirst : x < w + 1 := by omega
      have hnext : x + 1 < w + 1 := by omega
      rw [if_pos hfirst, if_pos hnext]
      rfl

end Frame

end Breadboard
