import Breadboard.Grid.Point

/-!
**The six directions of the grid.**

A heading is a coordinate axis with a sign.  Parts face along a heading, and a rotation of the grid
is known by the headings to which it sends the three axes.

Main definitions:

* `Heading.along` — the point at a signed distance from the origin;
* `Heading.cross` — the vector product of two headings that are not parallel;
* `Heading.number` — the number of the axis, `1`, `2` or `3`, signed by the direction.

Main results:

* `Heading.ofVector?_vector` — every heading is found by its unit vector.
-/

set_option autoImplicit false
set_option relaxedAutoImplicit false

namespace Breadboard

/-- A signed coordinate axis. -/
inductive Heading where
  | posX
  | negX
  | posY
  | negY
  | posZ
  | negZ
  deriving DecidableEq, Inhabited

namespace Heading

def along : Heading → Int → Point
  | posX, d => ⟨d, 0, 0⟩
  | negX, d => ⟨-d, 0, 0⟩
  | posY, d => ⟨0, d, 0⟩
  | negY, d => ⟨0, -d, 0⟩
  | posZ, d => ⟨0, 0, d⟩
  | negZ, d => ⟨0, 0, -d⟩

def vector (h : Heading) : Point := h.along 1

def opposite : Heading → Heading
  | posX => negX
  | negX => posX
  | posY => negY
  | negY => posY
  | posZ => negZ
  | negZ => posZ

/-- The vector product of two headings; parallel headings have none. -/
def cross : Heading → Heading → Option Heading
  | posX, posY | negX, negY | negY, posX | posY, negX => some posZ
  | posX, negY | negX, posY | negY, negX | posY, posX => some negZ
  | posY, posZ | negY, negZ | negZ, posY | posZ, negY => some posX
  | posY, negZ | negY, posZ | negZ, negY | posZ, posY => some negX
  | posZ, posX | negZ, negX | negX, posZ | posX, negZ => some posY
  | posZ, negX | negZ, posX | negX, negZ | posX, posZ => some negY
  | _, _ => none

def number : Heading → Int
  | posX => 1
  | negX => -1
  | posY => 2
  | negY => -2
  | posZ => 3
  | negZ => -3

/-- The headings in the order in which the wire format numbers them. -/
def all : List Heading := [posZ, posY, posX, negZ, negY, negX]

/-- The name of a heading as a facing of a part. -/
def name : Heading → String
  | posX => "POS_X"
  | negX => "NEG_X"
  | posY => "POS_Y"
  | negY => "NEG_Y"
  | posZ => "POS_Z"
  | negZ => "NEG_Z"

def ofName? (s : String) : Option Heading := all.find? fun h => h.name == s

/-- The number of a heading as a facing in the wire format. -/
def facingNumber : Heading → Nat
  | posZ => 0
  | posY => 1
  | posX => 2
  | negZ => 3
  | negY => 4
  | negX => 5

/-- The heading with the given unit vector. -/
def ofVector? (v : Point) : Option Heading := all.find? fun h => h.vector == v

/-! ### Small laws -/

/-- Every heading is found by its unit vector. -/
theorem ofVector?_vector (h : Heading) : ofVector? h.vector = some h := by
  cases h <;> decide

end Heading

end Breadboard
