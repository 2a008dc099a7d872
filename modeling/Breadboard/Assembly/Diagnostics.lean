import Breadboard.Wiring.SlotPlan

/-!
**What an assembly could not resolve.**

Paths that lead nowhere do not stop an assembly from being compiled.  They are left out and listed,
by the connection or by the planned slot in which they occur.

Main definitions:

* `Link` — a connection between two paths;
* `Diagnostics` — the paths that lead nowhere;
* `Diagnostics.count`, `Diagnostics.describe` — their number, and a line for each connection and
  each entry.

Main results:

* `Diagnostics.length_describe` — one line for each unresolved connection and entry.
-/

set_option autoImplicit false
set_option relaxedAutoImplicit false

namespace Breadboard

/-- A connection from an output to an input, by their paths. -/
structure Link where
  source : String
  target : String
  wiring : Wiring
  deriving Inhabited

/-- A connection with a path that leads nowhere. -/
structure BrokenLink where
  link : Link
  reasons : List Missing

/-- The paths of an assembly that lead nowhere. -/
structure Diagnostics where
  links : List BrokenLink
  inputs : Keyed (List Unresolved)
  outputs : Keyed (List Unresolved)

namespace Diagnostics

def none : Diagnostics := ⟨[], [], []⟩

/-- The number of entries of planned slots. -/
def countEntries (slots : Keyed (List Unresolved)) : Nat := (slots.flatMap Prod.snd).length

def count (d : Diagnostics) : Nat :=
  d.links.length + countEntries d.inputs + countEntries d.outputs

def isEmpty (d : Diagnostics) : Bool := d.count == 0

def describeLink (b : BrokenLink) : String :=
  "connection " ++ Quoted.quote b.link.source ++ " -> " ++ Quoted.quote b.link.target ++ ": "
    ++ "; ".intercalate (b.reasons.map Missing.describe)

/-- The lines of the planned slots of a side. -/
def describeSlots (side : Side) (slots : Keyed (List Unresolved)) : List String :=
  slots.flatMap fun (name, entries) => entries.map fun e =>
    side.name ++ " " ++ Quoted.quote name ++ ": " ++ e.missing.describe

def describe (d : Diagnostics) : List String :=
  d.links.map describeLink ++ describeSlots .input d.inputs ++ describeSlots .output d.outputs

theorem length_describeSlots (side : Side) (slots : Keyed (List Unresolved)) :
    (describeSlots side slots).length = countEntries slots := by
  simp [describeSlots, countEntries, List.length_flatMap]

/-- One line for each unresolved connection and entry. -/
theorem length_describe (d : Diagnostics) : d.describe.length = d.count := by
  simp [describe, count, length_describeSlots, Nat.add_assoc]

end Diagnostics

end Breadboard
