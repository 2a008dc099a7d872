import Breadboard.Draft.Device
import Breadboard.Draft.Slot
import Breadboard.Preset.Cube

/-!
**Circuits in drafts.**

A circuit is written out with all its units and slots, or it is a box of equal units.

Main definitions:

* `Draft.Placement` — a unit of a draft before it is put in place;
* `Draft.circuit` — a circuit that is written out;
* `Draft.cube` — a box of equal units.
-/

set_option autoImplicit false
set_option relaxedAutoImplicit false

namespace Breadboard

namespace Draft

/-- A unit of a draft before it is put in place. -/
structure Placement where
  pos : Json
  turn : Rotation
  device : Option Device

namespace Placement

instance : Inhabited Placement := ⟨⟨.null, default, none⟩⟩

def element (p : Placement) : Except Fault Element := do
  let d ← needed p.device
  let pos ← Reading.point p.pos
  let turn ← p.turn.read
  pure ⟨d, pos, turn⟩

end Placement

/-- The device of a unit, which may be that of an earlier unit. -/
def unitDevice (earlier : List Placement) (v : Json) : Except Fault (Option Device) :=
  match v.field? "same_as" with
  | some i => .ok ((Index.get? earlier i.whole).bind Placement.device)
  | none => device? v

/-- One more unit behind the earlier ones. -/
def addUnit (earlier : List Placement) (v : Json) : Except Fault (List Placement) :=
  match v with
  | .arr [pos, turn, shape] => do
      let turn ← rotation turn
      pure (earlier ++ [⟨pos, turn, ← unitDevice earlier shape⟩])
  | _ => .error .wrongType

def circuit (v : Json) : Except Fault Circuit := do
  let placements ← (v.itemsAt "units").foldlM addUnit []
  let inputs ← (v.itemsAt "inputs").mapM slot
  let outputs ← (v.itemsAt "outputs").mapM slot
  Circuit.build (← placements.mapM Placement.element) inputs outputs

def cube (v : Json) : Except Fault Circuit := do
  let d ← device? (v.get "shape")
  let turn ← turnAt v "rot"
  let size ← Reading.size (v.get "bounds")
  let turn ← turn.read
  let d ← needed d
  Circuit.cube size d turn ((v.textAt? "kind").getD Circuit.cubeKind)

end Draft

end Breadboard
