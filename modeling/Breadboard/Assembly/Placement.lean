import Breadboard.Fault
import Breadboard.Grid.Turn
import Breadboard.Keyed

/-!
**Where the circuits of an assembly stand.**

Every circuit of an assembly needs a place and a turn.  Usually they are given one by one; turns of
the same circuit add up, and a new place replaces the old one.

Main definitions:

* `Pose` — what is known of a circuit's place and turn;
* `Placements` — the poses that were given, and the circuit that was added last;
* `Positioner` — where places come from;
* `Positioner.arrange` — the places of all circuits, if every circuit has one.

Main results:

* `Placements.pose_place`, `Placements.pose_rotate` — a call changes the pose of its circuit only.
-/

set_option autoImplicit false
set_option relaxedAutoImplicit false

namespace Breadboard

/-- What is known of a circuit's place and turn. -/
structure Pose where
  place : Option Point
  turn : Turn
  deriving DecidableEq

namespace Pose

/-- Nothing is known: no place, and not turned. -/
def unknown : Pose := ⟨none, .identity⟩

instance : Inhabited Pose := ⟨unknown⟩

end Pose

/-- The poses that were given. -/
structure Placements where
  poses : Keyed Pose
  last : Option String

namespace Placements

def empty : Placements := ⟨[], none⟩

def pose (p : Placements) (name : String) : Pose := (Keyed.find? name p.poses).getD .unknown

def lastName (p : Placements) : Except Fault String :=
  match p.last with
  | some name => .ok name
  | none => .error .nothingAdded

def place (p : Placements) (name : String) (point : Point) : Placements :=
  { p with poses := Keyed.insert name { p.pose name with place := some point } p.poses }

/-- Turns a circuit, on top of the turns it was given before. -/
def rotate (p : Placements) (name : String) (turn : Turn) : Placements :=
  { p with poses :=
      Keyed.insert name { p.pose name with turn := turn.after (p.pose name).turn } p.poses }

/-- Gives the circuit that was added last a place. -/
def placeLast (p : Placements) (point : Point) : Except Fault Placements := do
  pure (p.place (← p.lastName) point)

/-- Turns the circuit that was added last. -/
def rotateLast (p : Placements) (turn : Turn) : Except Fault Placements := do
  pure (p.rotate (← p.lastName) turn)

/-- Takes note of the circuit that was added last. -/
def noteAdded (p : Placements) (name : String) : Placements := { p with last := some name }

/-- Why a circuit has no place, if it has none. -/
def gap? (p : Placements) (name : String) : Option PlacementGap :=
  match Keyed.find? name p.poses with
  | none => some .neverPlaced
  | some pose => if pose.place.isNone then some .onlyRotated else none

/-- A call changes the pose of its circuit only. -/
theorem pose_place (p : Placements) (name other : String) (point : Point) :
    (p.place name point).pose other
      = if name = other then { p.pose name with place := some point } else p.pose other := by
  simp only [pose, place, Keyed.find?_insert]
  split <;> rfl

theorem pose_rotate (p : Placements) (name other : String) (turn : Turn) :
    (p.rotate name turn).pose other
      = if name = other then { p.pose name with turn := turn.after (p.pose name).turn }
        else p.pose other := by
  simp only [pose, rotate, Keyed.find?_insert]
  split <;> rfl

end Placements

/-- Where the places of an assembly's circuits come from. -/
inductive Positioner where
  | manual (placements : Placements)
  /-- The listed circuits stand at the origin, not turned; no other circuit gets a place. -/
  | listed (names : List String)

namespace Positioner

/-- The places that were given one by one. -/
def placements? : Positioner → Except Fault Placements
  | manual p => .ok p
  | listed _ => .error .noSuchOperation

/-- Takes note of the circuit that was added last. -/
def noteAdded (name : String) : Positioner → Positioner
  | manual p => manual (p.noteAdded name)
  | listed names => listed names

def arrange (names : List String) : Positioner → Except Fault (Keyed (Point × Turn))
  | manual p =>
      let gaps := names.filterMap fun name => (p.gap? name).map fun gap => (name, gap)
      if gaps.isEmpty then
        .ok (names.map fun name => (name, ((p.pose name).place.getD .origin, (p.pose name).turn)))
      else .error (.unplaced gaps)
  | listed known =>
      if known.all fun name => names.contains name then
        let missing := names.filter fun name => !known.contains name
        if missing.isEmpty then .ok (names.map fun name => (name, (.origin, .identity)))
        else .error (.notPlaced missing)
      else .error .unknownKey

end Positioner

end Breadboard
