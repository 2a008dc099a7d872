import Breadboard.Preset.Arithmetic
import Breadboard.Preset.Basic

/-!
**The presets that come with the library.**

Main definitions:

* `Preset.checkWordSize` — a number of bits is not less than one;
* `Preset.catalog` — the presets.
-/

set_option autoImplicit false
set_option relaxedAutoImplicit false

namespace Breadboard

/-- A circuit made for given checks, with what there is to report. -/
abbrev Recipe := CompileConfig → Except Fault (Circuit × List Notice)

namespace Preset

def valueOf (name : String) (values : Keyed Json) : Json := (Keyed.find? name values).getD .null

def checkWordSize (v : Json) : Except Fault Unit := do
  let size ← Reading.quantity v
  if size.isLess (.whole 1) then throw (.badWordSize v.display) else pure ()

/-- The number of bits, if it is given as an integer. -/
def wholeBits (v : Json) : Except Fault Nat := do pure (← Reading.counted v).toNat

/-- The number of bits, without the fraction of a number that has one. -/
def truncatedBits (v : Json) : Except Fault Nat := do pure (← Reading.integer v).toNat

/-- One less than a number, as a text. -/
def predecessor (v : Json) : String :=
  match v with
  | .int i => toString (i - 1)
  | .bool b => toString ((if b then 1 else 0) - 1 : Int)
  | .float d => d.pred.render
  | _ => ""

/-- The mode whose name is given in letters of either case. -/
def gateMode (v : Json) : Except Fault GateMode :=
  match v with
  | .str s =>
      match GateMode.ofName? (String.ofList (s.toList.map Char.toUpper)) with
      | some mode => .ok mode
      | none => .error (.badGateName s (GateMode.all.map GateMode.name))
  | _ => .error .noSuchOperation

def gateCube : Preset Recipe where
  name := "gate_cube"
  params := [("x", .int 8), ("y", .int 1), ("z", .int 1), ("mode", .str "OR")]
  description := "Box of identical logic gates with per-point sectors"
  make values _ := do
    let mode ← gateMode (valueOf "mode" values)
    let size ← Reading.arraySize (.arr (["x", "y", "z"].map fun name => valueOf name values))
    pure (← Circuit.gateCube size mode .identity, [])

def adderSection : Preset Recipe where
  name := "adder_section"
  params := []
  description := "One-bit full adder: inputs a, b, _ (carry), outputs res, _ (carry)"
  make _ config := Arithmetic.adderSection config

def wordParams : Keyed Json := [("word_size", .int 8)]

def adder : Preset Recipe where
  name := "adder"
  params := wordParams
  description := "Ripple-carry adder built from adder sections"
  make values config := do
    let size := valueOf "word_size" values
    checkWordSize size
    Arithmetic.adder config (← wholeBits size)

/-- An adder with carry in and carry out. -/
def adderCompact : Preset Recipe where
  name := "adder_compact"
  params := wordParams
  description := "Gate-saving adder with carry in/out slots"
  make values config := do
    let size := valueOf "word_size" values
    checkWordSize size
    Arithmetic.adderCompact config (← truncatedBits size) (predecessor size)

def inverter : Preset Recipe where
  name := "inverter"
  params := wordParams
  description := "Two's complement negation of a binary word"
  make values config := do
    let size := valueOf "word_size" values
    checkWordSize size
    Arithmetic.inverter config (← truncatedBits size)

def catalog : Registry Recipe :=
  [gateCube, adderSection, adder, adderCompact, inverter].map fun p => (p.name, p)

end Preset

end Breadboard
