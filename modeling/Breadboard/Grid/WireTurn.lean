import Breadboard.Grid.Turn

/-!
**Turns in the wire format.**

A record gives the turn of a part by the axes along which its turned `x` axis and its turned `y`
axis, reversed, point, and anchors the part at a corner that depends on the turn.  A table lists
axes and corners by the facing of the part and by one of four poses; the pose of a turn is the first
one whose axes are right.

Main definitions:

* `WireTurn` — the axes and the step to the anchor;
* `Turn.Orient` — the poses of a part that faces along one heading;
* `WireTurn.table`, `WireTurn.of` — the table, and its entries by facing and pose;
* `Turn.orient`, `Turn.wire` — the pose of a turn, and its entry.

Main results:

* `Turn.orient?_isSome` — **every turn has an entry in the table**.
-/

set_option autoImplicit false
set_option relaxedAutoImplicit false

namespace Breadboard

/-- What a record says about a turn. -/
structure WireTurn where
  /-- The number of the axis along which the turned `x` axis points. -/
  xaxis : Int
  /-- The number of the axis along which the turned `y` axis, reversed, points. -/
  zaxis : Int
  /-- The step from the first cell to the corner by which a part is anchored. -/
  shift : Point
  deriving DecidableEq, Inhabited

/-- The four poses of a part that faces along one heading. -/
inductive Turn.Orient where
  | up
  | down
  | left
  | right
  deriving DecidableEq, Inhabited

namespace Turn.Orient

/-- The poses in the order in which the wire format numbers them. -/
def all : List Orient := [up, down, left, right]

def name : Orient → String
  | up => "UP"
  | down => "DOWN"
  | left => "LEFT"
  | right => "RIGHT"

/-- The number of a pose in the wire format. -/
def number : Orient → Nat
  | up => 0
  | down => 1
  | left => 2
  | right => 3

def ofName? (s : String) : Option Orient := all.find? fun o => o.name == s

end Turn.Orient

namespace WireTurn

/-- Four entries for each facing, in the order of the facings and of the poses. -/
def table : List WireTurn :=
  [⟨1, -2, ⟨0, 0, 0⟩⟩, ⟨-2, -1, ⟨1, 0, 0⟩⟩, ⟨-1, 2, ⟨1, -1, 0⟩⟩, ⟨2, 1, ⟨0, -1, 0⟩⟩,
   ⟨3, -1, ⟨1, -1, 0⟩⟩, ⟨-1, -3, ⟨1, -1, 1⟩⟩, ⟨-3, 1, ⟨0, -1, 1⟩⟩, ⟨1, 3, ⟨0, -1, 0⟩⟩,
   ⟨3, 2, ⟨0, -1, 0⟩⟩, ⟨2, -3, ⟨0, -1, 1⟩⟩, ⟨-3, -2, ⟨0, 0, 1⟩⟩, ⟨-2, 3, ⟨0, 0, 0⟩⟩,
   ⟨1, 2, ⟨0, -1, 1⟩⟩, ⟨2, -1, ⟨1, -1, 1⟩⟩, ⟨-1, -2, ⟨1, 0, 1⟩⟩, ⟨-2, 1, ⟨0, 0, 1⟩⟩,
   ⟨3, 1, ⟨0, 0, 0⟩⟩, ⟨1, -3, ⟨0, 0, 1⟩⟩, ⟨-3, -1, ⟨1, 0, 1⟩⟩, ⟨-1, 3, ⟨1, 0, 0⟩⟩,
   ⟨3, -2, ⟨1, 0, 0⟩⟩, ⟨-2, -3, ⟨1, 0, 1⟩⟩, ⟨-3, 2, ⟨1, -1, 1⟩⟩, ⟨2, 3, ⟨1, -1, 0⟩⟩]

def of (facing : Heading) (o : Turn.Orient) : WireTurn :=
  table.getD (facing.facingNumber * 4 + o.number) default

end WireTurn

namespace Turn

/-- The first pose whose entry has the axes of the turn; the part faces along the turned `z`
axis. -/
def orient? (t : Turn) : Option Orient :=
  Orient.all.find? fun o =>
    (WireTurn.of t.z o).xaxis == t.x.number && (WireTurn.of t.z o).zaxis == t.y.opposite.number

/-- **Every turn has an entry in the table.** -/
theorem orient?_isSome (t : Turn) : t.orient?.isSome = true := by
  obtain ⟨x, y, z, e⟩ := t
  cases x <;> cases y <;> cases e <;> rfl

def orient (t : Turn) : Orient := t.orient?.get t.orient?_isSome

def wire (t : Turn) : WireTurn := .of t.z t.orient

end Turn

end Breadboard
