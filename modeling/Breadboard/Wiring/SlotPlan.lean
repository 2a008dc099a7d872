import Breadboard.Wiring.Scope

/-!
**Plans of slots.**

The slots of a circuit under construction are planned before the circuits they lead to are in place.
A plan lists sectors and, for boxes of the new slot, the paths to which they are connected.  Making
the slot looks the paths up; a path that leads nowhere is skipped and reported.

Main definitions:

* `SlotPlan.attach`, `SlotPlan.attachFull` — connect a box or the whole slot to a path;
* `SlotPlan.addSector` — declares a sector;
* `SlotPlan.make` — the slot, and the entries whose paths lead nowhere.
-/

set_option autoImplicit false
set_option relaxedAutoImplicit false

namespace Breadboard

/-- A box of a planned slot, connected to a path. -/
structure PlanEntry where
  corner : Point
  size : Point
  path : String
  wiring : Wiring
  deriving Inhabited

/-- A slot that is to be made. -/
structure SlotPlan where
  name : String
  kind : String
  size : Size
  entries : List PlanEntry
  sectors : Keyed Sector

/-- An entry of a plan whose path leads nowhere. -/
structure Unresolved where
  entry : Nat
  missing : Missing
  deriving DecidableEq, Inhabited

namespace SlotPlan

def new (name kind : String) (size : Size) : SlotPlan := ⟨name, kind, size, [], []⟩

def bounds (plan : SlotPlan) : Point := plan.size.extents

/-! ### Entries -/

def push (plan : SlotPlan) (entry : PlanEntry) : SlotPlan :=
  { plan with entries := plan.entries ++ [entry] }

def attach (plan : SlotPlan) (corner size : Point) (path : String) (wiring : Wiring) :
    Except Fault SlotPlan := do
  let size ← Reading.asSize size
  pure (plan.push ⟨corner, size.extents, path, wiring⟩)

def attachFull (plan : SlotPlan) (path : String) (wiring : Wiring) : SlotPlan :=
  plan.push ⟨.origin, plan.bounds, path, wiring⟩

/-- Connects every point on its own to the path that is given for it, if there is one. -/
def attachPoints (plan : SlotPlan) (pathOf : Point → Option String) : SlotPlan :=
  plan.bounds.box.foldl (fun plan p => match pathOf p with
    | some path => plan.push ⟨p, .one, path, .straight⟩
    | none => plan) plan

/-! ### Sectors -/

def addSector (plan : SlotPlan) (name : String) (corner size : Point) (kind : Option String) :
    Except Fault SlotPlan := do
  let size ← Reading.asSize size
  let sector : Sector := ⟨corner, size.extents, kind.getD plan.kind⟩
  Slot.checkSector plan.name plan.bounds plan.sectors name sector
  pure { plan with sectors := plan.sectors ++ [(name, sector)] }

/-- Declares every point as a sector under the name that is given for it. -/
def addPointSectors (kind : String) (nameOf : Point → String) : EStateM Fault SlotPlan Unit := do
  (← get).bounds.box.forM fun p => do
    match (← get).addSector (nameOf p) p .one (some kind) with
    | .ok plan => set plan
    | .error fault => throw fault

/-! ### Making the slot -/

/-- The connected pairs of an entry: points of the new slot with points of the target's slot.
On the input side the new slot feeds the target, on the output side the target feeds the new
slot. -/
def entryPairs (plan : SlotPlan) (side : Side) (entry : PlanEntry) (target : Target) :
    Except Fault (List Pair) := do
  let own : Frame := ⟨entry.corner, entry.size, plan.bounds⟩
  match side with
  | .input =>
      let proposed ← entry.wiring.pairs entry.size target.sector.size
      pure (Frame.liftPairs own target.frame proposed)
  | .output =>
      let proposed ← entry.wiring.pairs target.sector.size entry.size
      pure ((Frame.liftPairs target.frame own proposed).map Prod.swap)

/-- The units behind the target's points, appended behind the points of the new slot. -/
def collect (target : Target) (cells : Dense (List Int)) (pairs : List Pair) : Dense (List Int) :=
  pairs.foldl (fun cells pair => cells.modify pair.1 fun ids => ids ++ target.unitsAt pair.2) cells

def follow (plan : SlotPlan) (scope : Scope) (side : Side)
    (made : Dense (List Int) × List Unresolved) (entry : PlanEntry × Nat) :
    Except Fault (Dense (List Int) × List Unresolved) :=
  match scope.resolve entry.1.path with
  | .error missing => .ok (made.1, made.2 ++ [⟨entry.2, missing⟩])
  | .ok target => do
      let pairs ← plan.entryPairs side entry.1 target
      pure (collect target made.1 pairs, made.2)

def make (plan : SlotPlan) (scope : Scope) (side : Side) :
    Except Fault (Slot × List Unresolved) := do
  plan.size.checkEmpty
  let made ← plan.entries.zipIdx.foldlM (plan.follow scope side)
    (Dense.filled plan.size [], [])
  pure (⟨plan.name, plan.kind, made.1, plan.sectors⟩, made.2)

def display (plan : SlotPlan) : String :=
  "Bind(" ++ Quoted.quote plan.name ++ ", kind=" ++ Quoted.quote plan.kind ++ ", bounds="
    ++ plan.bounds.display ++ ", entries=" ++ toString plan.entries.length ++ ")"

end SlotPlan

end Breadboard
