import Breadboard.Circuit.Basic
import Breadboard.Stepwise

/-!
**Moving circuits.**

A circuit is rotated about the origin, or it is relocated into a larger one: its units are taken
relative to the first corner of the bounding box, turned and moved to a place, and its connections
are shifted by the number of the units before them.

Main definitions:

* `Circuit.refreshBounds` — determines the size of the bounding box anew;
* `Circuit.rotate` — rotates a circuit;
* `Circuit.relocate` — the units of a circuit at a place inside another;
* `Circuit.takeApart` — the same as an action, after which the circuit is of no more use.
-/

set_option autoImplicit false
set_option relaxedAutoImplicit false

namespace Breadboard

/-- An action on a circuit; a failure carries the circuit as far as it was changed. -/
abbrev CircuitM := EStateM Fault Circuit

namespace Circuit

/-- An answer as an action that changes nothing. -/
def answer {α : Type} : Except Fault α → CircuitM α
  | .ok a => pure a
  | .error fault => throw fault

def refreshBounds : CircuitM Unit := do
  let box ← answer (boundingBox (← get).units)
  modify fun c => { c with bounds := box.2 }

def rotateUnit (t : Turn) (e : Element) : Except Fault Element := do
  pure { e with pos := ← Reading.moved t e.pos, turn := t.after e.turn }

def rotate (t : Turn) : CircuitM Unit := do
  let units ← answer ((← get).units.mapM (rotateUnit t))
  modify fun c => { c with units := units }
  refreshBounds

/-- A unit taken relative to `start`, turned and moved to `place`, its connections shifted by
`offset`. -/
def relocateUnit (start place : Point) (t : Turn) (offset : Int) (e : Element) :
    Except Fault Element := do
  let pos := (← Reading.moved t (e.pos - start)) + place
  pure { e with toDevice := e.toDevice.shiftWires offset, pos := pos, turn := t.after e.turn }

/-- The units of a circuit, turned about the first corner of its bounding box, which comes to stand
at `place`; `offset` units stand before them. -/
def relocate (c : Circuit) (offset : Int) (place : Point) (t : Turn) :
    Except Fault (List Element) := do
  let box ← boundingBox c.units
  c.units.mapM (relocateUnit box.1 place t offset)

/-- Shifts the connections of a unit; the unit has to have a place after the move. -/
def giveUp (start : Point) (t : Turn) (offset : Int) : EStateM Fault Element Unit := do
  modify fun e => { e with toDevice := e.toDevice.shiftWires offset }
  match Reading.moved t ((← get).pos - start) with
  | .ok _ => pure ()
  | .error fault => throw fault

/-- Takes a circuit apart; the answer is its units as `relocate` gives them.  The connections of the
units that are left behind are shifted as well, up to the first unit that cannot be moved. -/
def takeApart (offset : Int) (place : Point) (t : Turn) : CircuitM (List Element) := do
  let c ← get
  let box ← answer (boundingBox c.units)
  Stepwise.zoom Circuit.units (fun units c => { c with units := units })
    (Stepwise.onEach (giveUp box.1 t offset))
  answer (c.relocate offset place t)

end Circuit

end Breadboard
