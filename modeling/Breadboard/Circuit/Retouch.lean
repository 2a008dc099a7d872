import Breadboard.Circuit.Motion
import Breadboard.Index

/-!
**Changing single units.**

A unit of a finished circuit can be given one more connection, another colour, or the mark that it
is needed.  Its index may count from the end.

Main definitions:

* `Circuit.retouch` — changes the device of one unit;
* `Circuit.connectUnit`, `Circuit.colorUnit`, `Circuit.pinUnit` — the three changes;
* `Circuit.connectAll` — one more connection for every unit.
-/

set_option autoImplicit false
set_option relaxedAutoImplicit false

namespace Breadboard

namespace Circuit

def retouch (index : Int) (f : Device → Device) : CircuitM Unit := do
  let c ← get
  match Index.place? c.units.length index with
  | some k => set { c with units := c.units.modify k fun e => { e with toDevice := f e.toDevice } }
  | none => throw .indexOutOfRange

def connectUnit (index target : Int) : CircuitM Unit := retouch index fun d => d.connect target

def colorUnit (index : Int) (color : Option String) : CircuitM Unit :=
  retouch index fun d => { d with color := color }

def pinUnit (index : Int) (pinned : Bool) : CircuitM Unit :=
  retouch index fun d => { d with pinned := pinned }

def connectAll (c : Circuit) (target : Int) : Circuit :=
  { c with units := c.units.map fun e => { e with toDevice := e.toDevice.connect target } }

end Circuit

end Breadboard
