import Breadboard.Proofs.Circuit.Extent
import Mathlib.Data.List.Nodup
import Mathlib.Data.Multiset.Bind

/-!
**Circuits of columns.**

The circuits for words repeat the same cells for each bit, so their cells stand in columns along the
`y` axis.  What holds of the feet of the columns holds of the columns: if no two feet are the same,
no cell is filled twice, and the box of the feet, made as long as the columns, is the box of all
cells.

Main definitions:

* `Point.column` — cells in a row along the `y` axis;
* `Circuit.Solid` — circuits whose units have room beside each other and send to few others.

Main results:

* `Point.nodup_columns` — columns of different feet have no cell in common;
* `Point.Spans.columns` — **the box of columns**;
* `Circuit.solid_of_cells` — **a circuit is solid if its cells are different and span its box**.
-/

set_option autoImplicit false
set_option relaxedAutoImplicit false

namespace Breadboard

namespace Point

/-- The cells from a foot along the `y` axis. -/
def column (n : Nat) (foot : Point) : List Point :=
  (List.range n).map fun (k : Nat) => foot + ⟨0, k, 0⟩

theorem mem_column {n : Nat} {foot q : Point} :
    q ∈ column n foot ↔ ∃ k : Nat, k < n ∧ foot + ⟨0, k, 0⟩ = q := by
  simp only [column, List.mem_map, List.mem_range]

/-- The cells of a column are different. -/
theorem nodup_column (n : Nat) (foot : Point) : (column n foot).Nodup := by
  refine List.nodup_range.map fun k l h => ?_
  have hy := congrArg Point.y h
  simp only [add_y] at hy
  omega

/-- Columns of different feet, all on one level, have no cell in common. -/
theorem nodup_columns {feet : List Point} {level : Int} (h : feet.Nodup)
    (hlevel : ∀ p ∈ feet, p.y = level) (n : Nat) : (feet.flatMap (column n)).Nodup := by
  rw [List.nodup_flatMap]
  refine ⟨fun p _ => nodup_column n p, h.imp_of_mem fun {p q} hp hq hne => ?_⟩
  refine List.disjoint_left.2 fun cell hcell hcell' => ?_
  obtain ⟨k, _, rfl⟩ := mem_column.1 hcell
  obtain ⟨l, _, heq⟩ := mem_column.1 hcell'
  have hx := congrArg Point.x heq
  have hz := congrArg Point.z heq
  simp only [add_x, add_z] at hx hz
  refine hne (Point.ext ?_ ?_ ?_)
  · omega
  · rw [hlevel p hp, hlevel q hq]
  · omega

/-- Cells in layers, one for each bit, are cells in columns. -/
theorem perm_columns (feet : List Point) (n : Nat) :
    ((List.range n).flatMap fun (k : Nat) => feet.map fun foot => foot + ⟨0, k, 0⟩).Perm
      (feet.flatMap (column n)) := by
  refine Multiset.coe_eq_coe.1 ?_
  rw [← Multiset.coe_bind, ← Multiset.coe_bind]
  simp only [column, ← Multiset.map_coe]
  exact Multiset.bind_map_comm _ _

namespace Spans

variable {start stop : Point} {cells : List Point}

/-- Only the cells matter, not their order. -/
theorem perm (h : Spans start stop cells) {cells' : List Point} (hperm : cells'.Perm cells) :
    Spans start stop cells' where
  le := h.le
  bounded g q hq := h.bounded g q (hperm.mem_iff.1 hq)
  reached g := by
    obtain ⟨q, hq, hreach⟩ := h.reached g
    exact ⟨q, hperm.mem_iff.2 hq, hreach⟩

/-- **The box of columns** is the box of their feet, and as long as they are. -/
theorem columns (h : Spans start stop cells) {n : Nat} (hn : 1 ≤ n) :
    Spans start (stop + ⟨0, n - 1, 0⟩) (cells.flatMap (column n)) := by
  obtain ⟨hx, hy, hz⟩ := h.le
  -- a column reaches as far as its foot, and further along its own axis
  have hmax (g : Heading) : max (g.ahead start) (g.ahead (stop + ⟨0, n - 1, 0⟩))
      = max (g.ahead start) (g.ahead stop) + max 0 (g.ahead ⟨0, n - 1, 0⟩) := by
    cases g <;> simp only [Heading.ahead, add_x, add_y, add_z] <;> omega
  refine ⟨?_, fun g q hq => ?_, fun g => ?_⟩
  · simp only [le_def, add_x, add_y, add_z]
    omega
  · obtain ⟨foot, hfoot, hq⟩ := List.mem_flatMap.1 hq
    obtain ⟨k, hk, rfl⟩ := mem_column.1 hq
    have hbound := h.bounded g foot hfoot
    have hrise : g.ahead ⟨0, k, 0⟩ ≤ max 0 (g.ahead ⟨0, n - 1, 0⟩) := by
      cases g <;> simp only [Heading.ahead] <;> omega
    rw [hmax, g.ahead_add]
    omega
  · obtain ⟨foot, hfoot, hreach⟩ := h.reached g
    have hrise : ∃ k : Nat, k < n ∧ g.ahead ⟨0, k, 0⟩ = max 0 (g.ahead ⟨0, n - 1, 0⟩) := by
      rcases Int.le_total 0 (g.ahead ⟨0, n - 1, 0⟩) with hup | hdown
      · refine ⟨n - 1, by omega, ?_⟩
        rw [Int.max_eq_right hup]
        congr 2
        omega
      · refine ⟨0, hn, ?_⟩
        rw [Int.max_eq_left hdown]
        cases g <;> rfl
    obtain ⟨k, hk, hrise⟩ := hrise
    refine ⟨foot + ⟨0, k, 0⟩, List.mem_flatMap.2 ⟨foot, hfoot, mem_column.2 ⟨k, hk, rfl⟩⟩, ?_⟩
    rw [hmax, g.ahead_add, hreach, hrise]

end Spans

end Point

namespace Circuit

/-- No two units have a cell in common, the bounding box has the given size, and no unit sends to
more others than the limit. -/
structure Solid (c : Circuit) (size : Point) (limit : Nat) : Prop where
  apart : c.units.Pairwise fun e f => ¬ e.Overlaps f
  bounds : c.bounds = size
  box : ∃ start, boundingBox c.units = .ok (start, size)
  wires : ∀ e ∈ c.units, e.wires.length ≤ limit

/-- **A circuit is solid if its cells are different and span its box.** -/
theorem solid_of_cells {c : Circuit} {start stop : Point} {limit : Nat}
    (hbox : ∃ start, boundingBox c.units = .ok (start, c.bounds))
    (hspans : Point.Spans start stop (cellsOf c.units)) (hcells : (cellsOf c.units).Nodup)
    (hwires : ∀ e ∈ c.units, e.wires.length ≤ limit) : c.Solid (stop - start + .one) limit := by
  have hne : c.units ≠ [] := by
    intro hnil
    obtain ⟨q, hq, _⟩ := hspans.reached .posX
    rw [hnil] at hq
    cases hq
  obtain ⟨start', hbox⟩ := hbox
  have hsame := boundingBox_of_spans ⟨_, hbox⟩ hne hspans
  have hbounds : c.bounds = stop - start + .one :=
    congrArg Prod.snd (Except.ok.inj (hbox.symm.trans hsame))
  refine ⟨?_, hbounds, ⟨_, hsame⟩, hwires⟩
  refine (List.nodup_flatMap.1 hcells).2.imp fun {e f} hdisjoint => ?_
  rintro ⟨q, hq, hq'⟩
  exact hdisjoint hq hq'

end Circuit

end Breadboard
