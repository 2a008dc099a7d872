import Breadboard.Circuit.Basic
import Breadboard.Path
import Breadboard.Wiring.Frame

/-!
**Looking up paths.**

The slots that paths can name are listed by circuit.  A path leads to a sector of a slot, or it
fails at the first part that does not exist.

Main definitions:

* `Scope` — the named circuits with their slots of one side;
* `Target` — where a path leads;
* `Missing` — the first part of a path that does not exist;
* `Scope.resolve` — looks a path up.
-/

set_option autoImplicit false
set_option relaxedAutoImplicit false

namespace Breadboard

/-- The slots of one circuit under its name. -/
structure ScopeEntry where
  scheme : String
  /-- The number of units before those of the circuit. -/
  offset : Int
  slots : List Slot

abbrev Scope := List ScopeEntry

/-- A sector that a path leads to. -/
structure Target where
  offset : Int
  slot : Slot
  sector : Sector

namespace Target

def frame (t : Target) : Frame := ⟨t.sector.pos, t.sector.size, t.slot.size⟩

/-- The units behind a point of the slot, by their indices among all units. -/
def unitsAt (t : Target) (p : Point) : List Int := (t.slot.getPoint p).map fun i => i + t.offset

end Target

/-- The first part of a path that does not exist. -/
inductive Missing where
  | noScheme (path scheme : String)
  | noSlot (path scheme slot : String)
  | noSector (path scheme slot sector : String)
  deriving DecidableEq, Inhabited

namespace Missing

def describe : Missing → String
  | noScheme path scheme =>
      Quoted.quote path ++ ": scheme " ++ Quoted.quote scheme ++ " does not exist"
  | noSlot path scheme slot =>
      Quoted.quote path ++ ": scheme " ++ Quoted.quote scheme ++ " has no slot "
        ++ Quoted.quote slot
  | noSector path scheme slot sector =>
      Quoted.quote path ++ ": slot " ++ scheme ++ "/" ++ slot ++ " has no sector "
        ++ Quoted.quote sector

end Missing

namespace Scope

def find? (scope : Scope) (scheme : String) : Option ScopeEntry :=
  List.find? (fun e => e.scheme == scheme) scope

/-- The sector that a path leads to, or the first part of the path that does not exist. -/
def resolve (scope : Scope) (path : String) : Except Missing Target :=
  let parts := Path.read defaultSlot path
  match scope.find? parts.scheme with
  | none => .error (.noScheme path parts.scheme)
  | some entry =>
      match Circuit.findSlot? parts.slot entry.slots with
      | none => .error (.noSlot path parts.scheme parts.slot)
      | some slot =>
          match slot.getSector? parts.sector with
          | none => .error (.noSector path parts.scheme parts.slot parts.sector)
          | some sector => .ok ⟨entry.offset, slot, sector⟩

end Scope

end Breadboard
