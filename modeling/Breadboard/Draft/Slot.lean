import Breadboard.Draft.Turn
import Breadboard.Wiring.Scope

/-!
**Slots in drafts.**

A slot addresses a single unit, or it lists the units behind its points: all of them, `x` fastest,
or by point.

Main definitions:

* `Draft.sector` — a sector by its corner, its size and its kind;
* `Draft.slot` — a slot with its sectors;
* `Draft.scope` — circuits that paths can name, with their slots.
-/

set_option autoImplicit false
set_option relaxedAutoImplicit false

namespace Breadboard

namespace Draft

def sector (v : Json) : Sector :=
  match v with
  | .arr [pos, size, kind] => ⟨point pos, point size, kind.text⟩
  | _ => default

/-- The units behind the points of a box that is filled from a list. -/
def flatCells (size : Json) (data : List (List Int)) : Except Fault (Dense (List Int)) := do
  Dense.array (← Reading.size size) data

def setCell (cells : Dense (List Int)) (v : Json) : Except Fault (Dense (List Int)) :=
  match v with
  | .arr [p, ids] =>
      match cells.set? (point p) ids.wholes with
      | some (_, cells) => .ok cells
      | none => .error (.outsideMap (point p) cells.size)
  | _ => .ok cells

def addSector (s : Slot) (v : Json) : Except Fault Slot :=
  match v with
  | .arr [name, pos, size, kind] => s.bindSector name.text ⟨point pos, point size, kind.text⟩
  | _ => .ok s

/-- A slot before its sectors are declared. -/
def bareSlot (v : Json) : Except Fault Slot := do
  let name := v.textAt "name"
  let kind := v.textAt "kind"
  let size := v.get "size"
  match v.field? "point", v.field? "flat" with
  | some id, _ => pure (Slot.point name kind id.whole)
  | none, some flat => do
      let mapSize := v.get "map_size"
      let cells ← flatCells (if mapSize.isTrue then mapSize else size) (flat.items.map Json.wholes)
      let size ← Reading.size size
      Slot.ofMap? name kind size.extents cells
  | none, none => do
      let s := Slot.empty name kind (← Reading.arraySize size)
      pure { s with ids := ← (v.itemsAt "cells").foldlM setCell s.ids }

def slot (v : Json) : Except Fault Slot := do
  (v.itemsAt "sectors").foldlM addSector (← bareSlot v)

/-- The slots of one circuit, with the number of units before it. -/
def scopeEntry (v : Json) : Except Fault (String × Int × List Slot) :=
  match v with
  | .arr [name, offset, slots] => do pure (name.text, offset.whole, ← slots.items.mapM slot)
  | _ => .error .wrongType

/-- The circuits that paths can name; of several with one name the last counts. -/
def scope (v : Json) : Except Fault Scope := do
  let found ← v.items.mapM scopeEntry
  let named : Keyed (Int × List Slot) := found.foldl (fun k e => Keyed.insert e.1 e.2 k) []
  pure (named.map fun e => ⟨e.1, e.2.1, e.2.2⟩)

end Draft

end Breadboard
