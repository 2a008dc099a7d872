/-!
**Points and boxes of the integer grid.**

A point is a triple of integers and serves as a position, as an offset and as the size of a box.
The box of size `s` holds the points `p` with `0 ≤ p < s` on each axis; it is empty as soon as one
extent is not positive.

Main definitions:

* `Size` — the size of a box, no extent of which is negative;
* `Point.meet`, `Point.join` — the coordinatewise minimum and maximum;
* `Point.isInside` — membership in a box;
* `Point.boxFits` — a box at a corner stays within another box;
* `Point.box` — the points of a box, `x` outermost and `z` innermost;
* `Point.boxIndex` — the place of a point in that order;
* `Point.before` — the lexicographic order, in which `Point.box` lists its points.

Main results:

* `Point.mem_box` — **`Point.box` lists exactly the points inside**.
-/

set_option autoImplicit false
set_option relaxedAutoImplicit false

namespace Breadboard

/-- A triple of integers. -/
@[ext] structure Point where
  x : Int
  y : Int
  z : Int
  deriving DecidableEq, Inhabited, Hashable

namespace Point

/-- The point all of whose coordinates are zero. -/
def origin : Point := ⟨0, 0, 0⟩

/-- The size of a box with a single point. -/
def one : Point := ⟨1, 1, 1⟩

instance : Add Point := ⟨fun a b => ⟨a.x + b.x, a.y + b.y, a.z + b.z⟩⟩

instance : Sub Point := ⟨fun a b => ⟨a.x - b.x, a.y - b.y, a.z - b.z⟩⟩

instance : Neg Point := ⟨fun a => ⟨-a.x, -a.y, -a.z⟩⟩

theorem add_def (a b : Point) : a + b = ⟨a.x + b.x, a.y + b.y, a.z + b.z⟩ := rfl

theorem sub_def (a b : Point) : a - b = ⟨a.x - b.x, a.y - b.y, a.z - b.z⟩ := rfl

@[simp] theorem add_x (a b : Point) : (a + b).x = a.x + b.x := rfl

@[simp] theorem add_y (a b : Point) : (a + b).y = a.y + b.y := rfl

@[simp] theorem add_z (a b : Point) : (a + b).z = a.z + b.z := rfl

@[simp] theorem sub_x (a b : Point) : (a - b).x = a.x - b.x := rfl

@[simp] theorem sub_y (a b : Point) : (a - b).y = a.y - b.y := rfl

@[simp] theorem sub_z (a b : Point) : (a - b).z = a.z - b.z := rfl

/-- The same function on each coordinate. -/
def map (f : Int → Int) (a : Point) : Point := ⟨f a.x, f a.y, f a.z⟩

/-- The predicate holds of each coordinate. -/
def all (f : Int → Bool) (a : Point) : Bool := f a.x && f a.y && f a.z

/-- No extent is negative, so the point can be the size of a box. -/
def isSize (a : Point) : Bool := a.all fun v => decide (0 ≤ v)

def toList (a : Point) : List Int := [a.x, a.y, a.z]

def meet (a b : Point) : Point := ⟨min a.x b.x, min a.y b.y, min a.z b.z⟩

def join (a b : Point) : Point := ⟨max a.x b.x, max a.y b.y, max a.z b.z⟩

def volume (size : Point) : Int := size.x * size.y * size.z

def isInside (p size : Point) : Bool :=
  decide (0 ≤ p.x) && decide (p.x < size.x)
    && (decide (0 ≤ p.y) && decide (p.y < size.y))
    && (decide (0 ≤ p.z) && decide (p.z < size.z))

/-- The box of size `size` at `corner` stays within the box of size `bounds`. -/
def boxFits (corner size bounds : Point) : Bool :=
  decide (0 ≤ corner.x) && decide (corner.x + size.x ≤ bounds.x)
    && (decide (0 ≤ corner.y) && decide (corner.y + size.y ≤ bounds.y))
    && (decide (0 ≤ corner.z) && decide (corner.z + size.z ≤ bounds.z))

/-- The integers `0 .. n - 1` in increasing order; none for `n ≤ 0`. -/
def below (n : Int) : List Int := (List.range n.toNat).map Int.ofNat

def box (size : Point) : List Point :=
  (below size.x).flatMap fun x =>
    (below size.y).flatMap fun y =>
      (below size.z).map fun z => ⟨x, y, z⟩

def boxIndex (size p : Point) : Int := (p.x * size.y + p.y) * size.z + p.z

def before (a b : Point) : Bool :=
  decide (a.x < b.x)
    || (decide (a.x = b.x)
      && (decide (a.y < b.y) || (decide (a.y = b.y) && decide (a.z < b.z))))

/-! ### Membership in a box -/

theorem isInside_iff {p size : Point} :
    p.isInside size = true ↔
      (0 ≤ p.x ∧ p.x < size.x) ∧ (0 ≤ p.y ∧ p.y < size.y) ∧ (0 ≤ p.z ∧ p.z < size.z) := by
  simp [isInside, and_assoc]

theorem isSize_iff {a : Point} : a.isSize = true ↔ 0 ≤ a.x ∧ 0 ≤ a.y ∧ 0 ≤ a.z := by
  simp [isSize, all, and_assoc]

theorem boxFits_iff {corner size bounds : Point} :
    boxFits corner size bounds = true ↔
      (0 ≤ corner.x ∧ corner.x + size.x ≤ bounds.x)
        ∧ (0 ≤ corner.y ∧ corner.y + size.y ≤ bounds.y)
        ∧ (0 ≤ corner.z ∧ corner.z + size.z ≤ bounds.z) := by
  simp [boxFits, and_assoc]

theorem mem_below {n v : Int} : v ∈ below n ↔ 0 ≤ v ∧ v < n := by
  simp only [below, List.mem_map, List.mem_range]
  constructor
  · rintro ⟨k, hk, rfl⟩
    simp only [Int.ofNat_eq_natCast]
    omega
  · rintro ⟨h0, hn⟩
    exact ⟨v.toNat, by omega, by simp only [Int.ofNat_eq_natCast]; omega⟩

/-- **`Point.box` lists exactly the points inside.** -/
theorem mem_box {p size : Point} : p ∈ box size ↔ p.isInside size = true := by
  simp only [box, List.mem_flatMap, List.mem_map, mem_below, isInside_iff]
  constructor
  · rintro ⟨x, hx, y, hy, z, hz, rfl⟩
    exact ⟨hx, hy, hz⟩
  · rintro ⟨hx, hy, hz⟩
    exact ⟨p.x, hx, p.y, hy, p.z, hz, rfl⟩

theorem isSize_one : one.isSize = true := rfl

end Point

/-- The size of a box: no extent is negative. -/
structure Size where
  extents : Point
  isSize : extents.isSize = true
  deriving DecidableEq

namespace Size

/-- The size of a box with a single point. -/
def one : Size := ⟨.one, Point.isSize_one⟩

instance : Inhabited Size := ⟨one⟩

end Size

end Breadboard
