import Breadboard.Grid.Point

/-!
**Dense three-dimensional arrays.**

A dense array gives every point of a box one value.  The values are stored in the order of
`Point.box`, in which `z` runs fastest; a flat list of values gives them with `x` fastest, and they
are scattered over the points one by one.

Main definitions:

* `Dense.get?`, `Dense.set?` — the value at a point, and its replacement; `none` outside the box;
* `Dense.items` — points and values, `x` outermost;
* `Dense.flatIndex`, `Dense.pointAt` — the place of a point in a flat list, and the point of a
  place;
* `Dense.ofFlat?` — the array of a flat list;
* `Dense.ofFn` — the array of a function.

Main results:

* `Dense.flatIndex_lt` — **the place of a point inside is a place of the list**;
* `Dense.pointAt_flatIndex` — a point inside is found again from its place;
* `Dense.boxIndex_eq_flatIndex` — the stored order is the flat order with the axes exchanged;
* `Dense.get?_isSome` — every point inside has a value;
* `Dense.items_eq` — **the items are the points of the box with their values**.
-/

set_option autoImplicit false
set_option relaxedAutoImplicit false

namespace Breadboard

universe u v

/-- One value for every point of a box. -/
structure Dense (α : Type u) where
  size : Point
  /-- The values in the order of `Point.box`. -/
  cells : List α
  isSize : size.isSize = true
  full : cells.length = size.volume.toNat

namespace Dense

variable {α : Type u} {β : Type v}

def get? (d : Dense α) (p : Point) : Option α :=
  if p.isInside d.size then d.cells[(d.size.boxIndex p).toNat]? else none

/-- The value of a point is replaced by a function of it. -/
def modify (d : Dense α) (p : Point) (f : α → α) : Dense α where
  size := d.size
  cells := if p.isInside d.size then d.cells.modify (d.size.boxIndex p).toNat f else d.cells
  isSize := d.isSize
  full := by split <;> simp [d.full]

/-- The value of a point is replaced; the answer holds the previous value.  `none` outside the
box. -/
def set? (d : Dense α) (p : Point) (a : α) : Option (α × Dense α) :=
  (d.get? p).map fun old => (old, d.modify p fun _ => a)

/-- The points with their values, `x` outermost and `z` innermost.  The points of a box without
values are not gone through. -/
def items (d : Dense α) : List (Point × α) :=
  let cells := d.cells.toArray
  if cells.isEmpty then []
  else d.size.box.filterMap fun p =>
    (if p.isInside d.size then cells[(d.size.boxIndex p).toNat]? else none).map fun a => (p, a)

/-- The values in the order of `Dense.items`. -/
def values (d : Dense α) : List α := d.items.map Prod.snd

def map (f : α → β) (d : Dense α) : Dense β where
  size := d.size
  cells := d.cells.map f
  isSize := d.isSize
  full := by simp [d.full]

def filled (size : Size) (a : α) : Dense α where
  size := size.extents
  cells := List.replicate size.extents.volume.toNat a
  isSize := size.isSize
  full := by simp

def single (a : α) : Dense α := ⟨.one, [a], Point.isSize_one, rfl⟩

/-! ### The flat order -/

def flatIndex (size p : Point) : Int := p.x + p.y * size.x + p.z * size.x * size.y

def pointAt (size : Point) (i : Int) : Point :=
  ⟨i % size.x, (i / size.x) % size.y, i / (size.x * size.y)⟩

/-- The place of a point in a flat list, `none` outside the box. -/
def index? (d : Dense α) (p : Point) : Option Int :=
  if p.isInside d.size then some (flatIndex d.size p) else none

/-- The point with `x` and `z` exchanged. -/
def swapped (p : Point) : Point := ⟨p.z, p.y, p.x⟩

def ofFn (size : Size) (f : Point → α) : Dense α where
  size := size.extents
  cells := (List.range size.extents.volume.toNat).map fun i =>
    f (swapped (pointAt (swapped size.extents) (Int.ofNat i)))
  isSize := size.isSize
  full := by simp

/-- The array of the values, if none is missing. -/
def complete? (d : Dense (Option α)) : Option (Dense α) :=
  if e : (d.cells.filterMap id).length = d.size.volume.toNat then
    some ⟨d.size, d.cells.filterMap id, d.isSize, e⟩
  else none

/-- The values of a list, from place `start` on, each put at the point of its place. -/
def scatter (d : Dense (Option α)) (start : Nat) : List α → Dense (Option α)
  | [] => d
  | a :: rest =>
      scatter (d.modify (pointAt d.size (Int.ofNat start)) fun _ => some a) (start + 1) rest

def ofFlat? (size : Size) (data : List α) : Option (Dense α) :=
  if data.length = size.extents.volume.toNat then complete? (scatter (filled size none) 0 data)
  else none

/-! ### Points and places -/

/-- **The place of a point inside is a place of the list.** -/
theorem flatIndex_lt {size p : Point} (h : p.isInside size = true) :
    0 ≤ flatIndex size p ∧ flatIndex size p < size.volume := by
  obtain ⟨⟨hx0, hx⟩, ⟨hy0, hy⟩, ⟨hz0, hz⟩⟩ := Point.isInside_iff.1 h
  have hX : 0 ≤ size.x := by omega
  have hXY : 0 ≤ size.x * size.y := Int.mul_nonneg hX (by omega)
  have h1 : 0 ≤ p.y * size.x := Int.mul_nonneg hy0 hX
  have h2 : 0 ≤ p.z * (size.x * size.y) := Int.mul_nonneg hz0 hXY
  have h3 : (p.y + 1) * size.x ≤ size.y * size.x :=
    Int.mul_le_mul_of_nonneg_right (by omega) hX
  have h4 : (p.z + 1) * (size.x * size.y) ≤ size.z * (size.x * size.y) :=
    Int.mul_le_mul_of_nonneg_right (by omega) hXY
  rw [Int.add_mul] at h3 h4
  have e1 : size.y * size.x = size.x * size.y := Int.mul_comm _ _
  have e2 : size.z * (size.x * size.y) = size.volume := by
    rw [Point.volume, Int.mul_comm]
  have e3 : p.z * size.x * size.y = p.z * (size.x * size.y) := Int.mul_assoc _ _ _
  unfold flatIndex
  omega

/-- A point inside is found again from its place. -/
theorem pointAt_flatIndex {size p : Point} (h : p.isInside size = true) :
    pointAt size (flatIndex size p) = p := by
  obtain ⟨⟨hx0, hx⟩, ⟨hy0, hy⟩, ⟨hz0, hz⟩⟩ := Point.isInside_iff.1 h
  have hX : 0 < size.x := by omega
  have hY : 0 < size.y := by omega
  have e : flatIndex size p = p.x + size.x * (p.y + size.y * p.z) := by
    simp only [flatIndex, Int.mul_add]
    rw [Int.mul_comm p.y, Int.add_assoc, Int.mul_assoc, Int.mul_comm p.z, Int.mul_assoc]
  have hdiv : flatIndex size p / size.x = p.y + size.y * p.z := by
    rw [e, Int.add_mul_ediv_left _ _ (by omega), Int.ediv_eq_zero_of_lt hx0 hx, Int.zero_add]
  have hmod : flatIndex size p % size.x = p.x := by
    rw [e, Int.add_mul_emod_self_left, Int.emod_eq_of_lt hx0 hx]
  have hdiv' : flatIndex size p / (size.x * size.y) = p.z := by
    rw [← Int.ediv_ediv_of_nonneg (by omega), hdiv, Int.add_mul_ediv_left _ _ (by omega),
      Int.ediv_eq_zero_of_lt hy0 hy, Int.zero_add]
  have hmod' : flatIndex size p / size.x % size.y = p.y := by
    rw [hdiv, Int.add_mul_emod_self_left, Int.emod_eq_of_lt hy0 hy]
  simp only [pointAt, hmod, hmod', hdiv']

/-! ### The stored order -/

theorem isInside_swapped (p size : Point) :
    (swapped p).isInside (swapped size) = p.isInside size := by
  rw [Bool.eq_iff_iff, Point.isInside_iff, Point.isInside_iff]
  simp only [swapped]
  omega

theorem volume_swapped (size : Point) : (swapped size).volume = size.volume := by
  simp only [Point.volume, swapped]
  rw [Int.mul_comm, Int.mul_comm size.z, Int.mul_assoc]

/-- The stored order is the flat order with the axes exchanged. -/
theorem boxIndex_eq_flatIndex (size p : Point) :
    size.boxIndex p = flatIndex (swapped size) (swapped p) := by
  simp only [Point.boxIndex, flatIndex, swapped, Int.add_mul]
  rw [Int.add_comm, Int.add_comm (p.x * size.y * size.z), Int.add_assoc, Int.mul_assoc,
    Int.mul_assoc, Int.mul_comm size.y]

theorem boxIndex_lt {size p : Point} (h : p.isInside size = true) :
    0 ≤ size.boxIndex p ∧ size.boxIndex p < size.volume := by
  rw [boxIndex_eq_flatIndex, ← volume_swapped]
  exact flatIndex_lt (by rwa [isInside_swapped])

/-- The value of an array of a function is the function's value. -/
theorem get?_ofFn {size : Size} {p : Point} (f : Point → α)
    (hp : p.isInside size.extents = true) : (ofFn size f).get? p = some (f p) := by
  obtain ⟨h0, h1⟩ := boxIndex_lt hp
  have hlt : (size.extents.boxIndex p).toNat < size.extents.volume.toNat := by omega
  have hback : ((size.extents.boxIndex p).toNat : Int) = size.extents.boxIndex p :=
    Int.toNat_of_nonneg h0
  have hpoint : pointAt (swapped size.extents) (size.extents.boxIndex p) = swapped p := by
    rw [boxIndex_eq_flatIndex]
    exact pointAt_flatIndex (by rwa [isInside_swapped])
  simp only [get?, ofFn, hp, if_true, List.getElem?_map, List.getElem?_range hlt, Option.map_some,
    Int.ofNat_eq_natCast, hback, hpoint]
  rfl

/-- Every point inside has a value. -/
theorem get?_isSome {d : Dense α} {p : Point} (h : p.isInside d.size = true) :
    (d.get? p).isSome = true := by
  obtain ⟨h0, h1⟩ := boxIndex_lt h
  have hlt : (d.size.boxIndex p).toNat < d.cells.length := by
    rw [d.full]
    omega
  simp [get?, h, List.getElem?_eq_getElem hlt]

/-- **The items are the points of the box with their values.** -/
theorem items_eq (d : Dense α) :
    d.items = d.size.box.filterMap fun p => (d.get? p).map fun a => (p, a) := by
  unfold items
  simp only []
  split
  · rename_i h
    have hcells : d.cells = [] := by simpa using h
    refine (List.filterMap_eq_nil_iff.2 fun p _ => ?_).symm
    simp [get?, hcells]
  · simp only [get?, List.getElem?_toArray]

/-- Outside the box there is no value. -/
theorem get?_eq_none {d : Dense α} {p : Point} (h : p.isInside d.size = false) :
    d.get? p = none := by
  simp [get?, h]

end Dense

end Breadboard
