import Breadboard.Circuit.Motion
import Breadboard.Stepwise

/-!
**Removing units.**

Units leave a circuit one by one, by a condition, or because nothing depends on them.  References to
the units that stay are renumbered, references to the others are dropped.

A unit is used if it is marked, if an output slot addresses it, or if it sends signals to a unit
that is used.

Main definitions:

* `Circuit.removeUnit` — removes one unit;
* `Circuit.filterUnits` — keeps the units that meet a condition;
* `Circuit.usedFlags` — which units are used;
* `Circuit.removeUnused` — keeps the units that are used;
* `Circuit.replaceUnused` — puts an inert part in the place of every unit that is not used.
-/

set_option autoImplicit false
set_option relaxedAutoImplicit false

namespace Breadboard

namespace Circuit

/-! ### Renumbering a circuit -/

/-- Renumbers the connections of a unit that stays; the entry is its own new index. -/
def remapWires (table : List (Option Int)) : EStateM Fault (Element × Option Int) Unit := do
  let (e, entry) ← get
  match entry with
  | none => pure ()
  | some _ =>
      match Renumbering.byTable table e.wires with
      | .ok wires => set ({ e with wires := wires }, entry)
      | .error fault => throw fault

/-- Renumbers the references of every slot by a table. -/
def remapSlots (table : List (Option Int)) : CircuitM Unit := do
  Stepwise.zoom Circuit.inputs (fun s c => { c with inputs := s })
    (Stepwise.onEach (Slot.remap table))
  Stepwise.zoom Circuit.outputs (fun s c => { c with outputs := s })
    (Stepwise.onEach (Slot.remap table))

/-- Keeps the units that have an entry in the table and renumbers all references by it. -/
def applyTable (table : List (Option Int)) : CircuitM Unit := do
  Stepwise.zoom (fun c => c.units.zip table) (fun u c => { c with units := u.map Prod.fst })
    (Stepwise.onEach (remapWires table))
  modify fun c =>
    { c with units := ((c.units.zip table).filter fun u => u.2.isSome).map Prod.fst }
  remapSlots table
  refreshBounds

/-- Keeps the marked units; the answer is the number of units removed. -/
def keepUnits (flags : List Bool) : CircuitM Nat := do
  let removed := flags.count false
  if removed = 0 then pure removed
  else
    applyTable (Renumbering.keep flags)
    pure removed

/-! ### Removing by hand -/

/-- Keeps the units that meet a condition; the answer is the number of units removed. -/
def filterUnits (keep : Element → Bool) : CircuitM Nat := do
  keepUnits ((← get).units.map keep)

def without (c : Circuit) (index : Nat) : Circuit where
  units := (c.units.eraseIdx index).map fun e =>
    { e with wires := Renumbering.dropFrom index (-1) e.wires }
  inputs := c.inputs.map fun s => s.dropUnit index (-1)
  outputs := c.outputs.map fun s => s.dropUnit index (-1)
  bounds := c.bounds

/-- Removes the unit with the given index; the answer is the unit. -/
def removeUnit (index : Int) : CircuitM Element := do
  let c ← get
  match (if 0 ≤ index then c.units[index.toNat]? else none) with
  | none => throw (.noSuchUnit index c.units.length)
  | some e =>
      set (c.without index.toNat)
      refreshBounds
      pure e

/-! ### Units that are used -/

/-- The units that are used whatever they send signals to: the marked ones and those that an output
slot addresses. -/
def markedFlags (c : Circuit) : List Bool :=
  let shown := c.outputs.flatMap Slot.connectedIds
  c.units.zipIdx.map fun u => u.1.pinned || shown.contains (u.2 : Int)

/-- One of the receivers is used; the receivers are tried in order. -/
def reachesUsed (flags : List Bool) : List Int → Except Fault Bool
  | [] => .ok false
  | w :: rest =>
      match Index.get? flags w with
      | none => .error .indexOutOfRange
      | some true => .ok true
      | some false => reachesUsed flags rest

/-- A unit is used if one of its receivers is. -/
def spreadTo (flags : List Bool) (u : Element × Nat) : Except Fault (List Bool) :=
  if flags.getD u.2 true then .ok flags
  else do
    if ← reachesUsed flags u.1.wires then pure (flags.set u.2 true) else pure flags

/-- One round through all units in order. -/
def spread (units : List Element) (flags : List Bool) : Except Fault (List Bool) :=
  units.zipIdx.foldlM spreadTo flags

/-- Rounds until nothing changes, at most the given number of them. -/
def settle (units : List Element) : Nat → List Bool → Except Fault (List Bool)
  | 0, flags => .ok flags
  | rounds + 1, flags => do
      let next ← spread units flags
      if next = flags then pure flags else settle units rounds next

/-- Which units are used.  Every round but the last marks a unit, so one round more than there are
units is enough. -/
def usedFlags (c : Circuit) : Except Fault (List Bool) :=
  settle c.units (c.units.length + 1) c.markedFlags

/-- Keeps the units that are used; the answer is the number of units removed. -/
def removeUnused : CircuitM Nat := do
  keepUnits (← answer (← get).usedFlags)

/-- The placeholder in the place of a unit: the unit's colour wins over the placeholder's. -/
def standIn (placeholder : Device) (e : Element) : Element :=
  { e with
    part := placeholder.part
    wires := []
    color := e.color.orElse fun _ => placeholder.color }

/-- The reference is to a unit that is not used. -/
def isUnused (flags : List Bool) (w : Int) : Bool :=
  decide (0 ≤ w) && flags[w.toNat]? == some false

/-- Puts a placeholder in the place of every unit that is not used and drops the references to those
units; the answer is their number. -/
def replaceUnused (placeholder : Device) : CircuitM Nat := do
  let flags ← answer (← get).usedFlags
  modify fun c => { c with
    units := (c.units.zip flags).map fun u =>
      if u.2 then { u.1 with wires := u.1.wires.filter fun w => !isUnused flags w }
      else standIn placeholder u.1 }
  let replaced := flags.count false
  if replaced = 0 then pure () else remapSlots (Renumbering.keepInPlace flags)
  refreshBounds
  pure replaced

end Circuit

end Breadboard
