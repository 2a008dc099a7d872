import Breadboard.Draft.Wiring
import Breadboard.Wiring.SlotPlan

/-!
**Planned slots in drafts.**

A planned slot lists the calls by which it is made, in order.  Where paths or names are wanted for
all points, they are given by a template in which the coordinates of the point are filled in.

Main definitions:

* `Draft.fill` — a template filled in for a point;
* `Draft.planCall` — one call;
* `Draft.plan` — the planned slot after all its calls.
-/

set_option autoImplicit false
set_option relaxedAutoImplicit false

namespace Breadboard

namespace Draft

/-- A template with the coordinates of a point filled in, `x` before `y` before `z`. -/
def fill (template : String) (p : Point) : String :=
  ((template.replace "\x7bx\x7d" (toString p.x)).replace "\x7by\x7d" (toString p.y)).replace
    "\x7bz\x7d" (toString p.z)

/-- Connects a box of the slot to a path. -/
def attachBox (plan : SlotPlan) (v : Json) (wiring : Wiring) : Except Fault SlotPlan := do
  let (corner, size) ← Reading.pair (← Reading.entries (v.get "sector"))
  let corner ← Reading.point corner
  let size ← Reading.point size
  plan.attach corner size (v.textAt "to") wiring

/-- The path of every point that is not skipped. -/
def pathOf (v : Json) (p : Point) : Option String :=
  if (v.itemsAt "skip").any fun s => Reading.isPoint s p then none
  else some (fill (v.textAt "template") p)

/-- A call that either succeeds or changes nothing. -/
def wholeCall (plan : SlotPlan) (v : Json) : Except Fault SlotPlan :=
  match v.textAt "m" with
  | "connect" => attachBox plan v .straight
  | "dim" => do attachBox plan v (← axes (v.get "axes"))
  | "custom" => do attachBox plan v (← wiring (v.get "conn"))
  | "connect_full" => .ok (plan.attachFull (v.textAt "to") .straight)
  | "dim_full" => do pure (plan.attachFull (v.textAt "to") (← axes (v.get "axes")))
  | "custom_full" => do pure (plan.attachFull (v.textAt "to") (← wiring (v.get "conn")))
  | "connect_func" => .ok (plan.attachPoints (pathOf v))
  | _ => do
      let corner ← Reading.point (v.get "corner")
      let size ← Reading.point (v.get "size")
      plan.addSector (v.textAt "name") corner size (v.textAt? "kind")

def planCall (v : Json) : EStateM Fault SlotPlan Unit := do
  if v.textAt "m" = "gen_point_sectors" then
    SlotPlan.addPointSectors (v.textAt "kind") (fill (v.textAt "template"))
  else
    match wholeCall (← get) v with
    | .ok plan => set plan
    | .error fault => throw fault

def barePlan (v : Json) : Except Fault SlotPlan := do
  pure (.new (v.textAt "name") (v.textAt "kind") (← Reading.size (v.get "bounds")))

def plan (v : Json) : Except Fault SlotPlan := do
  let calls : EStateM Fault SlotPlan Unit := (v.itemsAt "calls").forM planCall
  match calls (← barePlan v) with
  | .ok _ plan => pure plan
  | .error fault _ => throw fault

end Draft

end Breadboard
