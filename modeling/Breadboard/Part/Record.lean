import Breadboard.Grid.WireTurn
import Breadboard.Part.Basic

/-!
**The wire record of a unit.**

A document lists one record for each unit: its colour, the identifier of its kind, its pose and its
anchor, and for gates and timers the state of the controller with the units it sends signals to.

Main definitions:

* `Part.record` — the record of a part at a place.
-/

set_option autoImplicit false
set_option relaxedAutoImplicit false

namespace Breadboard

def gateUuid : String := "9f0f56e8-2c31-4d83-996c-d00a9b296c3f"

def timerUuid : String := "8f7fd0e7-c46e-4944-a414-7ce2437bb30f"

/-- The colour of gates and timers that have no other. -/
def logicColor : String := "df7f00"

def Point.record (p : Point) : Json := .obj [("x", .int p.x), ("y", .int p.y), ("z", .int p.z)]

namespace Part

def uuid : Part → String
  | gate _ => gateUuid
  | timer _ => timerUuid
  | block type _ _ => type.uuid

/-- The colour of a part that has no other. -/
def defaultColor : Part → String
  | gate _ => logicColor
  | timer _ => logicColor
  | block type _ _ => type.color

/-- The receivers of a unit's signals; a unit without any has no list. -/
def receivers : List Int → Json
  | [] => .null
  | wires => .arr (wires.map fun w => .obj [("id", .int w)])

/-- The fields that gates and timers begin their controller with. -/
def controllerHead (wires : List Int) (id : Int) : List (String × Json) :=
  [("active", .bool false), ("id", .int id), ("joints", .null), ("controllers", receivers wires)]

/-- The fields that only this kind of part has; a block has no controller. -/
def details (wires : List Int) (id : Int) : Part → List (String × Json)
  | gate mode =>
      [("controller", .obj (controllerHead wires id ++ [("mode", .int mode.number)]))]
  | timer ticks =>
      [("controller", .obj (controllerHead wires id
        ++ [("seconds", .int (seconds ticks)), ("ticks", .int (restTicks ticks))]))]
  | block _ size _ => [("bounds", size.record)]

/-- The record of a part at a place, with the units it sends signals to, its own number and its
colour. -/
def record (p : Part) (pos : Point) (turn : Turn) (wires : List Int) (id : Int)
    (color : Option String) : Json :=
  .obj ([("color", .str (color.getD p.defaultColor)), ("shapeId", .str p.uuid),
      ("xaxis", .int turn.wire.xaxis), ("zaxis", .int turn.wire.zaxis),
      ("pos", (pos + turn.wire.shift).record)] ++ p.details wires id)

end Part

/-- The record of a device at a place; the given colour is used only where the device has none. -/
def Device.record (d : Device) (pos : Point) (turn : Turn) (id : Int) (color : Option String) :
    Json :=
  d.part.record pos turn d.wires id (d.color.orElse fun _ => color)

end Breadboard
