import Breadboard.Grid.Dense
import Mathlib.Data.List.Nodup

/-!
**Boxes point by point.**

A box lists each of its points once, and a dense array is known by the value at each point.  Later
modules reason about boxes and arrays by the laws collected here and not by the order of the cells.

Main results:

* `Point.nodup_box` — **no point of a box is listed twice**;
* `Point.box_row` — the points of a row of boxes of size one;
* `Dense.flatIndex_inj` — different points inside have different places;
* `Dense.get?_modify` — **a changed value is changed at its own point only**;
* `Dense.ext_get?` — **an array is known by the value at each point**;
* `Dense.mem_values` — the values are those at the points of the box.
-/

set_option autoImplicit false
set_option relaxedAutoImplicit false

namespace Breadboard

universe u

namespace Point

/-! ### The points of a box -/

theorem nodup_below (n : Int) : (below n).Nodup := by
  rw [below, List.nodup_map_iff fun a b e => Int.ofNat.inj e]
  exact List.nodup_range

/-- **No point of a box is listed twice.** -/
theorem nodup_box (size : Point) : (box size).Nodup := by
  unfold box
  refine List.nodup_flatMap.2 ⟨fun x _ => List.nodup_flatMap.2 ⟨fun y _ => ?_, ?_⟩, ?_⟩
  · -- along `z`
    refine List.Pairwise.map _ ?_ (nodup_below size.z)
    intro a b hab e
    exact hab (Point.mk.inj e).2.2
  · -- rows of different `y`
    refine (nodup_below size.y).imp ?_
    intro a b hab p ha hb
    obtain ⟨_, _, rfl⟩ := List.mem_map.1 ha
    obtain ⟨_, _, e⟩ := List.mem_map.1 hb
    exact hab (Point.mk.inj e).2.1.symm
  · -- planes of different `x`
    refine (nodup_below size.x).imp ?_
    intro a b hab p ha hb
    obtain ⟨_, _, ha⟩ := List.mem_flatMap.1 ha
    obtain ⟨_, _, hb⟩ := List.mem_flatMap.1 hb
    obtain ⟨_, _, rfl⟩ := List.mem_map.1 ha
    obtain ⟨_, _, e⟩ := List.mem_map.1 hb
    exact hab (Point.mk.inj e).1.symm

/-- The points of a row of boxes of size one. -/
theorem box_row (n : Nat) :
    box ⟨n, 1, 1⟩ = (List.range n).map fun (x : Nat) => (⟨x, 0, 0⟩ : Point) := by
  have hone : below 1 = [0] := rfl
  simp only [box, hone, List.flatMap_cons, List.flatMap_nil, List.append_nil, List.map_cons,
    List.map_nil]
  simp only [below, List.flatMap_map]
  exact List.flatMap_pure_eq_map _ _

end Point

namespace Dense

variable {α : Type u}

/-! ### The value at a point -/

/-- Different points inside have different places. -/
theorem flatIndex_inj {size p q : Point} (hp : p.isInside size = true)
    (hq : q.isInside size = true) : flatIndex size p = flatIndex size q ↔ p = q := by
  constructor
  · intro e
    rw [← pointAt_flatIndex hp, e, pointAt_flatIndex hq]
  · intro e
    rw [e]

theorem isSize_swapped (size : Point) : (swapped size).isSize = size.isSize := by
  rw [Bool.eq_iff_iff, Point.isSize_iff, Point.isSize_iff]
  simp only [swapped]
  omega

/-- Different points inside stand at different places. -/
theorem boxIndex_inj {size p q : Point} (hp : p.isInside size = true)
    (hq : q.isInside size = true) : size.boxIndex p = size.boxIndex q ↔ p = q := by
  have hswapped : swapped p = swapped q ↔ p = q := by
    simp only [swapped, Point.ext_iff]
    omega
  rw [boxIndex_eq_flatIndex, boxIndex_eq_flatIndex, ← hswapped]
  exact flatIndex_inj (by rwa [isInside_swapped]) (by rwa [isInside_swapped])

theorem get?_of_isInside {d : Dense α} {p : Point} (h : p.isInside d.size = true) :
    d.get? p = d.cells[(d.size.boxIndex p).toNat]? := if_pos h

theorem isInside_of_get?_eq_some {d : Dense α} {p : Point} {a : α} (h : d.get? p = some a) :
    p.isInside d.size = true := by
  cases hp : p.isInside d.size with
  | true => rfl
  | false => rw [get?_eq_none hp] at h; cases h

@[simp] theorem size_modify (d : Dense α) (p : Point) (f : α → α) :
    (d.modify p f).size = d.size := rfl

/-- **A changed value is changed at its own point only.** -/
theorem get?_modify (d : Dense α) (p q : Point) (f : α → α) :
    (d.modify q f).get? p = if p = q then (d.get? p).map f else d.get? p := by
  cases hp : p.isInside d.size with
  | false => rw [get?_eq_none (d := d.modify q f) hp, get?_eq_none hp]; simp
  | true =>
      rw [get?_of_isInside (d := d.modify q f) hp, get?_of_isInside hp, size_modify]
      cases hq : q.isInside d.size with
      | false =>
          have hne : p ≠ q := by rintro rfl; rw [hp] at hq; cases hq
          have hcells : (d.modify q f).cells = d.cells := by simp [modify, hq]
          rw [hcells, if_neg hne]
      | true =>
          have hcells : (d.modify q f).cells = d.cells.modify (d.size.boxIndex q).toNat f := by
            simp [modify, hq]
          have h0 := (boxIndex_lt hp).1
          have h0' := (boxIndex_lt hq).1
          have hiff := boxIndex_inj hp hq
          rw [hcells, List.getElem?_modify]
          by_cases e : p = q
          · simp [e]
          · have hne : (d.size.boxIndex q).toNat ≠ (d.size.boxIndex p).toNat := by
              intro e'
              exact e (hiff.1 (by omega))
            simp [hne, e]

theorem get?_filled {size : Size} {p : Point} (a : α) (h : p.isInside size.extents = true) :
    (filled size a).get? p = some a := by
  obtain ⟨h0, h1⟩ := boxIndex_lt h
  rw [get?_of_isInside (d := filled size a) h]
  simp only [filled, List.getElem?_replicate]
  rw [if_pos (by omega)]

@[simp] theorem size_map {β : Type u} (d : Dense α) (f : α → β) : (d.map f).size = d.size := rfl

theorem get?_map {β : Type u} (d : Dense α) (f : α → β) (p : Point) :
    (d.map f).get? p = (d.get? p).map f := by
  cases hp : p.isInside d.size with
  | false => rw [get?_eq_none (d := d.map f) hp, get?_eq_none hp]; rfl
  | true =>
      rw [get?_of_isInside (d := d.map f) hp, get?_of_isInside hp]
      exact List.getElem?_map

theorem map_map {β γ : Type u} (d : Dense α) (f : α → β) (g : β → γ) :
    (d.map f).map g = d.map (g ∘ f) := by
  simp [map]

theorem map_id (d : Dense α) : d.map id = d := by
  simp [map]

/-- Every place of the list is that of a point inside. -/
theorem pointAt_isInside {size : Point} (hsize : size.isSize = true) {i : Int} (h0 : 0 ≤ i)
    (h : i < size.volume) :
    (pointAt size i).isInside size = true ∧ flatIndex size (pointAt size i) = i := by
  obtain ⟨hx, hy, hz⟩ := Point.isSize_iff.1 hsize
  have hpos : 0 < size.x * size.y * size.z := by rw [Point.volume] at h; omega
  have hX : 0 < size.x := by
    rcases Int.lt_or_eq_of_le hx with hx | hx
    · exact hx
    · rw [← hx, Int.zero_mul, Int.zero_mul] at hpos
      omega
  have hY : 0 < size.y := by
    rcases Int.lt_or_eq_of_le hy with hy | hy
    · exact hy
    · rw [← hy, Int.mul_zero, Int.zero_mul] at hpos
      omega
  have hXY : 0 < size.x * size.y := Int.mul_pos hX hY
  -- the three coordinates, from the slowest to the fastest
  have hdiv : i / (size.x * size.y) = i / size.x / size.y := by
    rw [Int.ediv_ediv_of_nonneg (by omega)]
  have hrow : i / size.x % size.y + size.y * (i / size.x / size.y) = i / size.x :=
    Int.emod_add_mul_ediv _ _
  have hcell : i % size.x + size.x * (i / size.x) = i := Int.emod_add_mul_ediv _ _
  constructor
  · rw [Point.isInside_iff]
    refine ⟨⟨Int.emod_nonneg _ (by omega), Int.emod_lt_of_pos _ hX⟩,
      ⟨Int.emod_nonneg _ (by omega), Int.emod_lt_of_pos _ hY⟩, ?_, ?_⟩
    · exact Int.ediv_nonneg h0 (by omega)
    · refine Int.ediv_lt_of_lt_mul hXY ?_
      rw [Int.mul_comm]
      exact h
  · simp only [flatIndex, pointAt]
    rw [hdiv, Int.mul_assoc, Int.add_assoc]
    have e : i / size.x % size.y * size.x + i / size.x / size.y * (size.x * size.y)
        = size.x * (i / size.x % size.y + size.y * (i / size.x / size.y)) := by
      rw [Int.mul_add, Int.mul_comm _ size.x, ← Int.mul_assoc size.x size.y,
        Int.mul_comm _ (size.x * size.y)]
    rw [e, hrow, hcell]

/-- Every place is that of a point inside. -/
theorem exists_boxIndex_eq {size : Point} (hsize : size.isSize = true) {i : Int} (h0 : 0 ≤ i)
    (h : i < size.volume) : ∃ p, p.isInside size = true ∧ size.boxIndex p = i := by
  have hswapped : (swapped size).isSize = true := by rwa [isSize_swapped]
  obtain ⟨hinside, hflat⟩ := pointAt_isInside hswapped h0 (by rwa [volume_swapped])
  refine ⟨swapped (pointAt (swapped size) i), ?_, ?_⟩
  · rw [← isInside_swapped]
    exact hinside
  · rw [boxIndex_eq_flatIndex]
    exact hflat

/-- **An array is known by the value at each point.** -/
theorem ext_get? {d e : Dense α} (hsize : d.size = e.size) (h : ∀ p, d.get? p = e.get? p) :
    d = e := by
  have hcells : d.cells = e.cells := by
    refine List.ext_getElem? fun i => ?_
    by_cases hi : (i : Int) < d.size.volume
    · obtain ⟨p, hinside, hplace⟩ := exists_boxIndex_eq d.isSize (Int.natCast_nonneg i) hi
      have hp := h p
      rw [get?_of_isInside hinside, get?_of_isInside (hsize ▸ hinside), ← hsize, hplace] at hp
      exact hp
    · rw [List.getElem?_eq_none (by rw [d.full]; omega),
        List.getElem?_eq_none (by rw [e.full, ← hsize]; omega)]
  obtain ⟨size, cells, _, _⟩ := d
  obtain ⟨size', cells', _, _⟩ := e
  cases hsize
  cases hcells
  rfl

/-! ### All values -/

theorem mem_items {d : Dense α} {item : Point × α} :
    item ∈ d.items ↔ d.get? item.1 = some item.2 := by
  simp only [items_eq, List.mem_filterMap, Option.map_eq_some_iff]
  constructor
  · rintro ⟨p, _, a, ha, rfl⟩
    exact ha
  · intro h
    exact ⟨item.1, Point.mem_box.2 (isInside_of_get?_eq_some h), item.2, h, rfl⟩

/-- The values are those at the points of the box. -/
theorem mem_values {d : Dense α} {a : α} : a ∈ d.values ↔ ∃ p, d.get? p = some a := by
  simp only [values, List.mem_map, mem_items]
  constructor
  · rintro ⟨item, hitem, rfl⟩
    exact ⟨item.1, hitem⟩
  · rintro ⟨p, hp⟩
    exact ⟨(p, a), hp, rfl⟩

/-- The items of an array whose values are replaced. -/
theorem items_map {β : Type u} (d : Dense α) (f : α → β) :
    (d.map f).items = d.items.map fun item => (item.1, f item.2) := by
  rw [items_eq, items_eq, List.map_filterMap, size_map]
  refine List.filterMap_congr fun p _ => ?_
  rw [get?_map]
  cases d.get? p <;> rfl

end Dense

end Breadboard
