import Breadboard.Assembly.Diagnostics
import Breadboard.Assembly.Placement

/-!
**Assemblies.**

An assembly puts named circuits together: it places them, connects their slots by paths, and plans
slots of its own.  A call that fails changes nothing, except that of a list of circuits those that
can be added are added.

Main definitions:

* `Assembly` — the circuits, connections and planned slots so far;
* `Fragment` — what can be added: a circuit, or a device that becomes one;
* `Assembly.add`, `Assembly.addAll` — adds circuits;
* `Assembly.connect` — connects two paths;
* `Assembly.place`, `Assembly.rotate` — places and turns an added circuit;
* `Assembly.plan` — plans a slot;
* `Assembly.forward` — plans a slot that passes a slot of an added circuit on.
-/

set_option autoImplicit false
set_option relaxedAutoImplicit false

namespace Breadboard

/-- The checks of a finished assembly. -/
structure CompileConfig where
  maxConnections : Int
  checkOverflow : Bool
  deriving DecidableEq, Inhabited

namespace CompileConfig

def standard : CompileConfig := ⟨255, true⟩

end CompileConfig

/-- Something offered as a part of an assembly. -/
inductive Fragment where
  | circuit (circuit : Circuit)
  /-- A device, which becomes a circuit with default slots. -/
  | device (device : Device)
  | other

namespace Fragment

def circuit? : Fragment → Except Fault Circuit
  | circuit c => .ok c
  | device d => Circuit.ofDevice d
  | other => .error .wrongType

end Fragment

/-- Circuits that are put together. -/
structure Assembly where
  positioner : Positioner
  config : CompileConfig
  /-- The circuits by name, in the order in which they were added. -/
  schemes : Keyed Circuit
  links : List Link
  inputs : List SlotPlan
  outputs : List SlotPlan
  /-- The assembly was compiled and accepts no further calls. -/
  consumed : Bool

abbrev AssemblyM := EStateM Fault Assembly

namespace Assembly

def empty (positioner : Positioner) (config : CompileConfig) : Assembly :=
  ⟨positioner, config, [], [], [], [], false⟩

/-- An answer as an action that changes nothing. -/
def answer {α : Type} : Except Fault α → AssemblyM α
  | .ok a => pure a
  | .error fault => throw fault

def ensureOpen : AssemblyM Unit := do
  if (← get).consumed then throw .consumed else pure ()

/-- A name is not empty and has no separator. -/
def checkName (name what : String) : Except Fault Unit :=
  if name = "" then .error (.invalidName name what .empty)
  else if Path.hasSeparator name then .error (.invalidName name what .separator)
  else .ok ()

/-- Turns the check of connection counts on or off. -/
def setCheck (enabled : Bool) : AssemblyM Unit := do
  ensureOpen
  modify fun a => { a with config := { a.config with checkOverflow := enabled } }

/-! ### Circuits -/

def add (name : String) (fragment : Fragment) : AssemblyM Unit := do
  ensureOpen
  let circuit ← answer fragment.circuit?
  answer (checkName name "Scheme")
  let a ← get
  if Keyed.has name a.schemes then throw (.schemeNameTaken name)
  else set { a with
    schemes := a.schemes ++ [(name, circuit)]
    positioner := a.positioner.noteAdded name }

/-- The name of an added circuit was refused. -/
def isRefusal : Fault → Bool
  | .invalidName .. => true
  | .schemeNameTaken _ => true
  | _ => false

/-- Adds a circuit; the answer is the refusal of its name, if it was refused. -/
def addOrReport (item : String × Fragment) : AssemblyM (Option Fault) := fun a =>
  match add item.1 item.2 a with
  | .ok _ a' => .ok none a'
  | .error fault a' => if isRefusal fault then .ok (some fault) a' else .error fault a'

/-- Adds circuits in order.  Those whose names are refused are left out, and reported at the end. -/
def addAll (items : List (String × Fragment)) : AssemblyM Unit := do
  let reports ← items.mapM addOrReport
  let faults := reports.filterMap id
  if faults.isEmpty then pure () else throw (.several faults)

/-- Adds the same circuit under several names. -/
def addCopies (names : List String) (fragment : Fragment) : AssemblyM Unit := do
  let circuit ← answer fragment.circuit?
  addAll (names.map fun name => (name, .circuit circuit))

/-! ### Connections -/

def connect (source target : String) (wiring : Wiring) : AssemblyM Unit := do
  ensureOpen
  modify fun a => { a with links := a.links ++ [⟨source, target, wiring⟩] }

/-- Connects every output of a list to every input of another. -/
def connectAll (sources targets : List String) (wiring : Wiring) : AssemblyM Unit :=
  sources.forM fun source => targets.forM fun target => connect source target wiring

/-! ### Places -/

/-- The places that are given one by one. -/
def placements : AssemblyM Placements := do answer (← get).positioner.placements?

/-- Changes the places that are given one by one. -/
def arrangeBy (f : Placements → Except Fault Placements) : AssemblyM Unit := do
  let p ← answer (f (← placements))
  modify fun a => { a with positioner := .manual p }

def place (name : String) (point : Point) : AssemblyM Unit :=
  arrangeBy fun p => .ok (p.place name point)

def rotate (name : String) (turn : Turn) : AssemblyM Unit :=
  arrangeBy fun p => .ok (p.rotate name turn)

/-- Gives the circuit that was added last a place. -/
def placeLast (point : Point) : AssemblyM Unit := arrangeBy fun p => p.placeLast point

/-- Turns the circuit that was added last. -/
def rotateLast (turn : Turn) : AssemblyM Unit := arrangeBy fun p => p.rotateLast turn

/-! ### Slots of the assembly -/

def plans (a : Assembly) : Side → List SlotPlan
  | .input => a.inputs
  | .output => a.outputs

def pushPlan (a : Assembly) (side : Side) (plan : SlotPlan) : Assembly :=
  match side with
  | .input => { a with inputs := a.inputs ++ [plan] }
  | .output => { a with outputs := a.outputs ++ [plan] }

def plan (side : Side) (plan : SlotPlan) : AssemblyM Unit := do
  ensureOpen
  answer (checkName plan.name (side.title ++ " slot"))
  let a ← get
  if (a.plans side).any fun p => p.name == plan.name then throw (.slotNameTaken side plan.name)
  else set (a.pushPlan side plan)

/-- The slot and the sector of an added circuit that a path names in full. -/
def forwardTarget (a : Assembly) (side : Side) (path : String) :
    Except ForwardFlaw (Path × Slot × Sector) :=
  let (scheme, tail) := Path.splitFirst path
  let (slotName, sector) := Path.splitFirst (tail.getD "")
  let parts : Path := ⟨scheme, slotName, sector.getD wholeSector⟩
  if scheme = "" then .error .noScheme
  else if slotName = "" then .error .noSlot
  else
    match Keyed.find? scheme a.schemes with
    | none => .error (.schemeMissing scheme)
    | some circuit =>
        match Circuit.findSlot? slotName (circuit.slots side) with
        | none => .error (.slotMissing scheme side slotName)
        | some slot =>
            match slot.getSector? parts.sector with
            | none => .error (.sectorMissing slotName parts.sector)
            | some sector => .ok (parts, slot, sector)

/-- The plan of a slot that passes a sector of an added circuit on.  A slot that is passed on as a
whole keeps its sectors. -/
def forwardPlan (name : String) (kind : Option String) (parts : Path) (slot : Slot)
    (sector : Sector) : Except Fault SlotPlan := do
  let plan := SlotPlan.new name (kind.getD sector.kind) (← Reading.asSize sector.size)
  let whole := parts.scheme ++ "/" ++ parts.slot
  if parts.sector = wholeSector then
    slot.sectors.foldlM
      (fun plan (sub : String × Sector) => plan.addSector sub.1 sub.2.pos sub.2.size sub.2.kind)
      (plan.attachFull whole .straight)
  else pure (plan.attachFull (whole ++ "/" ++ parts.sector) .straight)

/-- Plans a slot that passes a slot of an added circuit on, or one of its sectors. -/
def forward (side : Side) (name path : String) (kind : Option String) : AssemblyM Unit := do
  ensureOpen
  answer (checkName name "Pass")
  match (← get).forwardTarget side path with
  | .error flaw => throw (.forward side name path flaw)
  | .ok (parts, slot, sector) => do
      plan side (← answer (forwardPlan name kind parts slot sector))

end Assembly

end Breadboard
