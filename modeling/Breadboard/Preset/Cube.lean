import Breadboard.Circuit.Basic

/-!
**Boxes of identical units.**

Main definitions:

* `Circuit.pointName` — the name of a point's sector;
* `Circuit.cube` — a device at every point of a box, addressed by point.  It has slots only if there
  can be an array over the box.
-/

set_option autoImplicit false
set_option relaxedAutoImplicit false

namespace Breadboard

namespace Circuit

def pointName (p : Point) : String :=
  toString p.x ++ "_" ++ toString p.y ++ "_" ++ toString p.z

/-- The slot that addresses the units of a cube by their points; every point is also a sector. -/
def cubeSlot (size : Size) (kind : String) : Slot where
  name := defaultSlot
  kind := kind
  ids := .ofFn size fun p => [size.extents.boxIndex p]
  sectors := size.extents.box.map fun p => (pointName p, ⟨p, .one, "bit"⟩)

/-- The slots of a cube on a side, where its device may need none. -/
def cubeSlots (size : Size) (kind : String) (needed : Bool) : Except Fault (List Slot) :=
  if needed then do
    size.checkArray
    pure [cubeSlot size kind]
  else .ok []

def cube (size : Size) (device : Device) (turn : Turn) (kind : String) : Except Fault Circuit := do
  let inputs ← cubeSlots size kind device.part.hasInput
  let outputs ← cubeSlots size kind device.part.hasOutput
  build (size.extents.box.map fun p => ⟨device, p, turn⟩) inputs outputs

theorem mem_cubeSlots {size : Size} {kind : String} {needed : Bool} {slots : List Slot}
    (h : cubeSlots size kind needed = .ok slots) {s : Slot} (hs : s ∈ slots) :
    needed = true ∧ s = cubeSlot size kind := by
  unfold cubeSlots at h
  split at h
  · rename_i hneeded
    obtain ⟨_, _, h⟩ := Fault.bind_eq_ok_iff.1 h
    cases h
    exact ⟨hneeded, List.mem_singleton.1 hs⟩
  · cases h
    cases hs

/-- A cube is built of its units and its slots. -/
theorem cube_eq_ok_iff {size : Size} {device : Device} {turn : Turn} {kind : String} {c : Circuit} :
    cube size device turn kind = .ok c ↔ ∃ inputs outputs,
      cubeSlots size kind device.part.hasInput = .ok inputs
        ∧ cubeSlots size kind device.part.hasOutput = .ok outputs
        ∧ build (size.extents.box.map fun p => ⟨device, p, turn⟩) inputs outputs = .ok c := by
  unfold cube
  simp only [Fault.bind_eq_ok_iff]
  constructor
  · rintro ⟨inputs, hin, outputs, hout, h⟩
    exact ⟨inputs, outputs, hin, hout, h⟩
  · rintro ⟨inputs, outputs, hin, hout, h⟩
    exact ⟨inputs, hin, outputs, hout, h⟩

/-- The kind of a cube's slots if nothing else is asked for. -/
def cubeKind : String := "binary"

/-- A cube of gates that are not connected. -/
def gateCube (size : Size) (mode : GateMode) (turn : Turn) : Except Fault Circuit :=
  cube size (.ofPart (.gate mode)) turn cubeKind

end Circuit

end Breadboard
