import Breadboard.Circuit.Basic
import Breadboard.Palette
import Breadboard.Part.Record

/-!
**Circuits as documents.**

A circuit is written as the list of its units' records.  A unit without a colour of its own is
painted by the slots that address it.

Main definitions:

* `Circuit.strokes` — every slot point's colour on every unit it addresses, in order;
* `Circuit.paint` — the colour that each unit keeps;
* `Circuit.records` — the records of all units.
-/

set_option autoImplicit false
set_option relaxedAutoImplicit false

namespace Breadboard

namespace Circuit

/-- A colour that a slot gives to a unit. -/
abbrev Stroke := Int × String

/-- The colours that the slots of a side give, by slot and by point. -/
def strokesOf (units : List Element) (color : Int → Point → Except Fault String)
    (slots : List Slot) : Except Fault (List Stroke) := do
  let perSlot ← slots.zipIdx.mapM fun (slot, number) => do
    let perPoint ← slot.ids.items.mapM fun (p, ids) => do
      let perUnit ← ids.mapM fun id => match Index.get? units id with
        | none => .error .indexOutOfRange
        | some e =>
            if e.color.isNone then do pure [(id, ← color number p)] else .ok []
      pure perUnit.flatten
    pure perPoint.flatten
  pure perSlot.flatten

/-- The colours that all slots give to units without a colour of their own, input slots first. -/
def strokes (c : Circuit) (palette : Palette) : Except Fault (List Stroke) := do
  let fromInputs ← strokesOf c.units palette.input c.inputs
  let fromOutputs ← strokesOf c.units palette.output c.outputs
  pure (fromInputs ++ fromOutputs)

/-- The last of the colours given to a unit. -/
def lastStroke? (strokes : List Stroke) (id : Int) : Option String :=
  (strokes.reverse.find? fun s => s.1 == id).map Prod.snd

/-- The painted units in increasing order, each with the last colour it was given. -/
def paint (c : Circuit) (palette : Palette) : Except Fault (List Stroke) := do
  let all ← c.strokes palette
  pure ((Sorted.ofList Sorted.intLt (all.map Prod.fst)).filterMap fun id =>
    (lastStroke? all id).map fun color => (id, color))

def records (c : Circuit) (palette : Palette) : Except Fault (List Json) := do
  let all ← c.strokes palette
  pure (c.units.zipIdx.map fun (e, i) => e.record e.pos e.turn i (lastStroke? all i))

end Circuit

end Breadboard
