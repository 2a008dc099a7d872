import Breadboard.Assembly.Basic
import Breadboard.Circuit.Motion

/-!
**From an assembly to a circuit.**

The circuits of an assembly are placed one behind the other, their units numbered through.  Then the
planned slots are made and the connections are drawn, and the result is checked.

Main definitions:

* `Block` — the units of one circuit in the assembly, with the number of units before them;
* `Assembly.layOut` — the blocks of all circuits;
* `Assembly.draw` — the connections of one link;
* `Assembly.link` — the circuit that an assembly stands for, and what was left out;
* `Assembly.compile` — the same as an action, after which the assembly accepts no calls.
-/

set_option autoImplicit false
set_option relaxedAutoImplicit false

namespace Breadboard

/-- The units of one circuit inside an assembly. -/
structure Block where
  name : String
  /-- The number of units before those of the circuit. -/
  offset : Int
  units : List Element
  inputs : List Slot
  outputs : List Slot

namespace Block

/-- The slots of a block as paths name them. -/
def scopeEntry (b : Block) : Side → ScopeEntry
  | .input => ⟨b.name, b.offset, b.inputs⟩
  | .output => ⟨b.name, b.offset, b.outputs⟩

end Block

namespace Assembly

/-! ### Placing the circuits -/

def layOut (places : Keyed (Point × Turn)) (offset : Int) :
    Keyed Circuit → Except Fault (List Block)
  | [] => .ok []
  | (name, circuit) :: rest => do
      let (place, turn) := (Keyed.find? name places).getD (.origin, .identity)
      let units ← circuit.relocate offset place turn
      let blocks ← layOut places (offset + units.length) rest
      pure (⟨name, offset, units, circuit.inputs, circuit.outputs⟩ :: blocks)

/-- The slots of one side that paths can name. -/
def scopeOf (blocks : List Block) (side : Side) : Scope := blocks.map fun b => b.scopeEntry side

/-! ### Making the planned slots -/

/-- The planned slots of a side, and those among them with entries that lead nowhere. -/
def makeSlots (plans : List SlotPlan) (scope : Scope) (side : Side) :
    Except Fault (List Slot × Keyed (List Unresolved)) := do
  let made ← plans.mapM fun plan => plan.make scope side
  let unresolved := made.filter fun m => !m.2.isEmpty
  pure (made.map Prod.fst, unresolved.map fun m => (m.1.name, m.2))

/-! ### Drawing the connections -/

def extendWires (receivers : List Int) (units : List Element) (unit : Int) :
    Except Fault (List Element) :=
  match Index.place? units.length unit with
  | some k => .ok (units.modify k fun e => { e with wires := e.wires ++ receivers })
  | none => .error .indexOutOfRange

/-- The connections of one pair of points: every unit behind the start sends to every unit behind
the end. -/
def drawPair (source target : Target) (units : List Element) (pair : Pair) :
    Except Fault (List Element) :=
  (source.unitsAt pair.1).foldlM (extendWires (target.unitsAt pair.2)) units

def missingParts (source target : Except Missing Target) : List Missing :=
  [source, target].filterMap fun r => match r with
    | .ok _ => none
    | .error missing => some missing

def draw (outputs inputs : Scope) (drawn : List Element × List BrokenLink) (link : Link) :
    Except Fault (List Element × List BrokenLink) :=
  match outputs.resolve link.source, inputs.resolve link.target with
  | .ok source, .ok target => do
      let proposed ← link.wiring.pairs source.sector.size target.sector.size
      let pairs := Frame.liftPairs source.frame target.frame proposed
      pure (← pairs.foldlM (drawPair source target) drawn.1, drawn.2)
  | source, target => .ok (drawn.1, drawn.2 ++ [⟨link, missingParts source target⟩])

/-! ### Checking the connection counts -/

/-- The units with more receivers than the limit, with the numbers of their receivers. -/
def overflowing (limit : Int) (units : List Element) : List (Nat × Nat) :=
  units.zipIdx.filterMap fun (e, i) =>
    if limit < (e.wires.length : Int) then some (i, e.wires.length) else none

/-- The paths of the slots that address one of the given units. -/
def reaching (units : List (Nat × Nat)) (scope : Scope) : List String :=
  scope.flatMap fun entry =>
    (entry.slots.filter fun slot => slot.connectedIds.any fun i =>
      units.any fun u => (u.1 : Int) == i + entry.offset).map fun slot =>
        entry.scheme ++ "/" ++ slot.name

/-- No unit has more receivers than the limit, if that is to be checked. -/
def checkFanOut (config : CompileConfig) (outputs inputs : Scope) (units : List Element) :
    Except Fault Unit :=
  let found := overflowing config.maxConnections units
  if config.checkOverflow && !found.isEmpty then
    .error (.fanOut (reaching found inputs) (reaching found outputs) config.maxConnections found)
  else .ok ()

/-! ### The circuit -/

def link (a : Assembly) : Except Fault (Circuit × Diagnostics) := do
  let places ← a.positioner.arrange (Keyed.names a.schemes)
  let blocks ← layOut places 0 a.schemes
  let inputs := scopeOf blocks .input
  let outputs := scopeOf blocks .output
  let (inputSlots, badInputs) ← makeSlots a.inputs inputs .input
  let (outputSlots, badOutputs) ← makeSlots a.outputs outputs .output
  let (units, broken) ← a.links.foldlM (draw outputs inputs) (blocks.flatMap Block.units, [])
  checkFanOut a.config outputs inputs units
  let circuit ← Circuit.build units inputSlots outputSlots
  pure (circuit, ⟨broken, badInputs, badOutputs⟩)

def compile : AssemblyM (Circuit × Diagnostics) := do
  ensureOpen
  modify fun a => { a with consumed := true }
  answer (← get).link

end Assembly

end Breadboard
