import Breadboard.Assembly.Linking
import Breadboard.Draft.Plan

/-!
**Steps of a draft.**

An assembly is drafted step by step.  A step adds, connects, plans, places or turns one thing; axes,
places and turns are still to be read when the step is taken.

Main definitions:

* `Draft.Step` — a step with what it was given;
* `Draft.Step.perform` — takes the step;
* `Draft.Step.ofPlaces` — the step gives or changes a place.
-/

set_option autoImplicit false
set_option relaxedAutoImplicit false

namespace Breadboard

namespace Draft

/-- A step of a draft. -/
inductive Step where
  | setCheck (enabled : Bool)
  | add (name : String) (fragment : Fragment)
  | connect (source target : String) (wiring : Wiring)
  /-- Connects along the marked axes. -/
  | dim (source target : String) (marked : Json)
  | plan (side : Side) (plan : SlotPlan)
  | forward (side : Side) (name path : String) (kind : Option String)
  | place (name : String) (place : Json)
  | rotate (name : String) (turn : Rotation)
  | placeLast (place : Json)
  | rotateLast (turn : Rotation)

namespace Step

def lastAdded : AssemblyM String := do Assembly.answer (← Assembly.placements).lastName

/-- Gives a circuit a place that is still to be read. -/
def placeAt (name : String) (place : Json) : AssemblyM Unit := do
  let _ ← Assembly.placements
  Assembly.place name (← Assembly.answer (Reading.point place))

/-- Turns a circuit by a turn that is still to be read. -/
def turnBy (name : String) (turn : Rotation) : AssemblyM Unit := do
  let _ ← Assembly.placements
  Assembly.rotate name (← Assembly.answer turn.read)

def perform : Step → AssemblyM Unit
  | setCheck enabled => Assembly.setCheck enabled
  | add name fragment => Assembly.add name fragment
  | connect source target wiring => Assembly.connect source target wiring
  | dim source target marked => do
      Assembly.connect source target (← Assembly.answer (axes marked))
  | plan side p => Assembly.plan side p
  | forward side name path kind => Assembly.forward side name path kind
  | place name p => placeAt name p
  | rotate name t => turnBy name t
  | placeLast p => do placeAt (← lastAdded) p
  | rotateLast t => do turnBy (← lastAdded) t

/-- The step gives or changes a place, which a compiled assembly does not refuse. -/
def ofPlaces : Step → Bool
  | place .. | rotate .. | placeLast .. | rotateLast .. => true
  | _ => false

end Step

end Draft

end Breadboard
