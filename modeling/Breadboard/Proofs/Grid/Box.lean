import Breadboard.Proofs.Grid.Dense
import Breadboard.Proofs.Sorted
import Breadboard.Wiring.Basic

/-!
**Boxes as lists of points.**

A box lists its points in lexicographic order.  An increasing list is known by its members, so the
order and the test for points inside determine the list.  The test for boxes only looks at a corner
and a size.  As a box with a point on every axis has two opposite corners, that is enough to answer
for all points of the box.

Main definitions:

* `Point.product` — the points with given coordinates.

Main results:

* `Row.getElem?_flatMap_of_length` — an entry of joined lists of one length;
* `Point.pairwise_box` — a box lists its points in increasing order;
* `Point.length_box` — a box has as many points as its volume says;
* `Point.eq_box_iff` — **a box is the increasing list of the points inside**;
* `Point.boxFits_iff_forall` — **a box fits exactly if each of its points does**;
* `Point.box_enumerates` — the two together.
-/

set_option autoImplicit false
set_option relaxedAutoImplicit false

namespace Breadboard

universe u v

/-- The entry at a place of joined lists of one length. -/
theorem Row.getElem?_flatMap_of_length {α : Type u} {β : Type v} {l : List α} {f : α → List β}
    {n : Nat} (hf : ∀ a ∈ l, (f a).length = n) {i j : Nat} {a : α} (ha : l[i]? = some a)
    (hj : j < n) :
    (l.flatMap f)[i * n + j]? = (f a)[j]? := by
  induction l generalizing i with
  | nil => cases ha
  | cons b rest ih =>
      have hb : (f b).length = n := hf b List.mem_cons_self
      rw [List.flatMap_cons]
      cases i with
      | zero =>
          obtain rfl : b = a := Option.some.inj ha
          rw [List.getElem?_append_left (by omega), Nat.zero_mul, Nat.zero_add]
      | succ i =>
          have hskip : (i + 1) * n + j - n = i * n + j := by
            rw [Nat.succ_mul]
            omega
          rw [List.getElem?_append_right (by rw [Nat.succ_mul]; omega), hb, hskip]
          exact ih (fun c hc => hf c (List.mem_cons_of_mem b hc)) ha

namespace Point

/-! ### Lists of points in order -/

/-- The points with coordinates from three lists, `x` outermost and `z` innermost. -/
def product (xs ys zs : List Int) : List Point :=
  xs.flatMap fun a => ys.flatMap fun b => zs.map fun c => ⟨a, b, c⟩

theorem mem_product {xs ys zs : List Int} {p : Point} :
    p ∈ product xs ys zs ↔ p.x ∈ xs ∧ p.y ∈ ys ∧ p.z ∈ zs := by
  simp only [product, List.mem_flatMap, List.mem_map]
  constructor
  · rintro ⟨a, ha, b, hb, c, hc, rfl⟩
    exact ⟨ha, hb, hc⟩
  · rintro ⟨hx, hy, hz⟩
    exact ⟨p.x, hx, p.y, hy, p.z, hz, rfl⟩

/-- Increasing coordinates give increasing points. -/
theorem pairwise_product {xs ys zs : List Int} (hx : xs.Pairwise (· < ·))
    (hy : ys.Pairwise (· < ·)) (hz : zs.Pairwise (· < ·)) :
    (product xs ys zs).Pairwise fun p q => p.before q = true := by
  refine List.pairwise_flatMap.2 ⟨fun a _ => List.pairwise_flatMap.2 ⟨fun b _ => ?_, ?_⟩, ?_⟩
  · -- points that differ in `z` only
    rw [List.pairwise_map]
    refine hz.imp fun h => ?_
    exact before_iff.2 (.inr ⟨rfl, .inr ⟨rfl, h⟩⟩)
  · refine hy.imp fun h p hp q hq => ?_
    obtain ⟨c, _, rfl⟩ := List.mem_map.1 hp
    obtain ⟨c', _, rfl⟩ := List.mem_map.1 hq
    exact before_iff.2 (.inr ⟨rfl, .inl h⟩)
  · refine hx.imp fun h p hp q hq => ?_
    obtain ⟨b, _, hp⟩ := List.mem_flatMap.1 hp
    obtain ⟨c, _, rfl⟩ := List.mem_map.1 hp
    obtain ⟨b', _, hq⟩ := List.mem_flatMap.1 hq
    obtain ⟨c', _, rfl⟩ := List.mem_map.1 hq
    exact before_iff.2 (.inl h)

theorem pairwise_below (n : Int) : (below n).Pairwise (· < ·) := by
  rw [below, List.pairwise_map]
  exact List.pairwise_lt_range.imp fun h => Int.ofNat_lt.2 h

/-- A box lists its points in increasing order. -/
theorem pairwise_box (size : Point) : size.box.Pairwise fun p q => p.before q = true :=
  pairwise_product (pairwise_below _) (pairwise_below _) (pairwise_below _)

/-- **A box is the increasing list of the points inside.** -/
theorem eq_box_iff {size : Point} {points : List Point} :
    points = size.box ↔ points.Pairwise (fun p q => p.before q = true)
      ∧ ∀ p, p ∈ points ↔ p.isInside size = true := by
  constructor
  · rintro rfl
    exact ⟨pairwise_box size, fun p => mem_box⟩
  · rintro ⟨hpairwise, hmem⟩
    exact Sorted.eq_of_mem_iff isOrder_before hpairwise (pairwise_box size)
      fun p => (hmem p).trans mem_box.symm

/-! ### The number of points -/

/-- The points of a box of natural extents. -/
theorem box_natCast (x y z : Nat) :
    box ⟨x, y, z⟩ = (List.range x).flatMap fun (i : Nat) =>
      (List.range y).flatMap fun (j : Nat) => (List.range z).map fun (k : Nat) => ⟨i, j, k⟩ := by
  simp only [box, below, Int.toNat_natCast, List.flatMap_map, List.map_map]
  rfl

theorem exists_natCast {p : Point} (h : p.isSize = true) : ∃ x y z : Nat, p = ⟨x, y, z⟩ := by
  obtain ⟨hx, hy, hz⟩ := isSize_iff.1 h
  obtain ⟨x, y, z⟩ := p
  obtain ⟨x, rfl⟩ := Int.eq_ofNat_of_zero_le hx
  obtain ⟨y, rfl⟩ := Int.eq_ofNat_of_zero_le hy
  obtain ⟨z, rfl⟩ := Int.eq_ofNat_of_zero_le hz
  exact ⟨x, y, z, rfl⟩

/-- A box has as many points as its volume says. -/
theorem length_box {size : Point} (h : size.isSize = true) :
    (size.box.length : Int) = size.volume := by
  obtain ⟨x, y, z, rfl⟩ := exists_natCast h
  simp [box_natCast, volume, List.length_flatMap, Int.mul_assoc]

/-! ### Boxes inside boxes -/

/-- **A box fits exactly if each of its points does**, moved to the corner. -/
theorem boxFits_iff_forall {corner size bounds : Point} (hx : 1 ≤ size.x) (hy : 1 ≤ size.y)
    (hz : 1 ≤ size.z) :
    boxFits corner size bounds = true
      ↔ ∀ p ∈ size.box, (corner + p).isInside bounds = true := by
  rw [boxFits_iff]
  constructor
  · rintro hfits p hp
    rw [mem_box, isInside_iff] at hp
    simp only [isInside_iff, add_x, add_y, add_z]
    omega
  · intro hinside
    -- the first and the last point of the box
    have hfirst := hinside ⟨0, 0, 0⟩ (mem_box.2 (isInside_iff.2 (by simp only; omega)))
    have hlast := hinside ⟨size.x - 1, size.y - 1, size.z - 1⟩
      (mem_box.2 (isInside_iff.2 (by simp only; omega)))
    simp only [isInside_iff, add_x, add_y, add_z] at hfirst hlast
    omega

/-- **Boxes are listed exactly.**  Whatever the extents, the points of a box are listed in strictly
increasing lexicographic order, a point is listed exactly if it is inside, and no other list is like
that; so no point is repeated, and without negative extents there are as many points as the volume
says.  A box that has a point stays within bounds exactly if each of its points, moved to the
corner, is inside them. -/
theorem box_enumerates :
    (∀ size : Point,
        size.box.Pairwise (fun p q => p.before q = true)
        ∧ (∀ p, p ∈ size.box ↔ p.isInside size = true)
        ∧ (∀ points : List Point, points = size.box
          ↔ points.Pairwise (fun p q => p.before q = true)
            ∧ ∀ p, p ∈ points ↔ p.isInside size = true)
        ∧ size.box.Nodup
        ∧ (size.isSize = true → (size.box.length : Int) = size.volume))
      ∧ ∀ corner size bounds : Point, 1 ≤ size.x → 1 ≤ size.y → 1 ≤ size.z →
        (boxFits corner size bounds = true
          ↔ ∀ p ∈ size.box, (corner + p).isInside bounds = true) :=
  ⟨fun size =>
      ⟨pairwise_box size, fun _ => mem_box, fun _ => eq_box_iff, nodup_box size, length_box⟩,
    fun _ _ _ => boxFits_iff_forall⟩

/-- A box of six points that juts out of its bounds along one axis. -/
theorem box_enumerates_jutting :
    isSize ⟨2, 1, 3⟩ = true ∧ (1 : Int) ≤ 2 ∧ (1 : Int) ≤ 1 ∧ (1 : Int) ≤ 3
      ∧ (box ⟨2, 1, 3⟩).length = 6
      ∧ boxFits ⟨1, 0, 2⟩ ⟨2, 1, 3⟩ ⟨3, 1, 4⟩ = false
      ∧ ∃ p ∈ box ⟨2, 1, 3⟩, (⟨1, 0, 2⟩ + p : Point).isInside ⟨3, 1, 4⟩ = false := by
  obtain ⟨hlists, hfits⟩ := box_enumerates
  have hsize : isSize ⟨2, 1, 3⟩ = true := by decide
  have hjuts : boxFits ⟨1, 0, 2⟩ ⟨2, 1, 3⟩ ⟨3, 1, 4⟩ = false := by decide
  refine ⟨hsize, by decide, by decide, by decide, ?_, hjuts, ?_⟩
  · have hlength := (hlists ⟨2, 1, 3⟩).2.2.2.2 hsize
    have hvolume : volume ⟨2, 1, 3⟩ = 6 := by decide
    omega
  · by_contra hnone
    have hall := (hfits ⟨1, 0, 2⟩ ⟨2, 1, 3⟩ ⟨3, 1, 4⟩ (by decide) (by decide) (by decide)).2
      fun p hp => by
        by_contra hout
        exact hnone ⟨p, hp, by simpa using hout⟩
    rw [hjuts] at hall
    cases hall

end Point

end Breadboard
