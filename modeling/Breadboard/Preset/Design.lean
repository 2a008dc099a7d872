import Breadboard.Assembly.Linking
import Breadboard.Notice
import Breadboard.Preset.Cube

/-!
**Designs of ready-made circuits.**

A design lists circuits with their places, the connections between them and the slots.

Main definitions:

* `Placed` — a circuit under a name at a place;
* `Assembly.ofPlaced` — the assembly of a design;
* `SlotPlan.word`, `SlotPlan.bit` — slots for a binary word and for a single bit.
-/

set_option autoImplicit false
set_option relaxedAutoImplicit false

namespace Breadboard

/-- A circuit under a name at a place. -/
structure Placed where
  name : String
  circuit : Circuit
  place : Point
  turn : Turn

namespace Assembly

def ofPlaced (config : CompileConfig) (placed : List Placed) (links : List Link)
    (inputs outputs : List SlotPlan) : Assembly where
  positioner := .manual ⟨placed.map fun p => (p.name, ⟨some p.place, p.turn⟩),
    placed.getLast?.map Placed.name⟩
  config := config
  schemes := placed.map fun p => (p.name, p.circuit)
  links := links
  inputs := inputs
  outputs := outputs
  consumed := false

/-- The circuit of an assembly, with what there is to report under its name. -/
def linkFor (what : String) (a : Assembly) : Except Fault (Circuit × List Notice) := do
  let (circuit, diagnostics) ← a.link
  pure (circuit, diagnostics.noticesFor what)

end Assembly

namespace Link

/-- A connection of equal points. -/
def straight (source target : String) : Link := ⟨source, target, .straight⟩

/-- A connection of every bit to the next higher one. -/
def carry (source target : String) : Link := ⟨source, target, .shift ⟨1, 0, 0⟩⟩

end Link

namespace SlotPlan

theorem isSize_word (bits : Nat) : Point.isSize ⟨bits, 1, 1⟩ = true := by
  simp [Point.isSize_iff]

/-- The size of a word of so many bits. -/
def wordSize (bits : Nat) : Size := ⟨⟨bits, 1, 1⟩, isSize_word bits⟩

/-- The slot of a binary word: bit `x` stands at `(x, 0, 0)` and is a sector named by its number.
The whole word is connected to each of the given paths. -/
def word (name : String) (bits : Nat) (paths : List String) : SlotPlan where
  name := name
  kind := "binary"
  size := wordSize bits
  entries := paths.map fun path => ⟨.origin, ⟨bits, 1, 1⟩, path, .straight⟩
  sectors := (List.range bits).map fun (x : Nat) => (toString x, ⟨⟨x, 0, 0⟩, .one, "bit"⟩)

/-- The slot of a binary word whose bits are connected one by one. -/
def wordByBit (name : String) (bits : Nat) (pathOf : Nat → String) : SlotPlan :=
  { word name bits [] with
    entries := (List.range bits).map fun (x : Nat) => ⟨⟨x, 0, 0⟩, .one, pathOf x, .straight⟩ }

def bit (name : String) (paths : List String) : SlotPlan where
  name := name
  kind := "bit"
  size := .one
  entries := paths.map fun path => ⟨.origin, .one, path, .straight⟩
  sectors := []

end SlotPlan

end Breadboard
