import Breadboard.Draft.Turn

/-!
**Tuples of numbers in drafts.**

Where a draft gives a point as a tuple, the tuple may hold any numbers, and any number of them.  The
operations on points then look at the entries that they need, one after the other: an entry that is
missing or is no number fails when it is needed, and further entries are not looked at.

Main definitions:

* `Tuple` — the entries; `Tuple.plain?` is the point of three integers;
* `Tuple.add`, `Tuple.sub`, `Tuple.meet`, `Tuple.join`, `Tuple.volume` — as for points;
* `Tuple.isInside`, `Tuple.boxFits` — membership in a box;
* `Tuple.point`, `Tuple.box` — the point with integer entries, and the points of its box;
* `Tuple.cell` — the point of a box that a document means.

Main results:

* `Tuple.point_ofPoint` — **a point is found again from its tuple**.
-/

set_option autoImplicit false
set_option relaxedAutoImplicit false

namespace Breadboard

abbrev Tuple := List Json

namespace Tuple

def ofPoint (p : Point) : Tuple := p.toList.map Json.int

def plain? : Json → Option Point
  | .arr [.int x, .int y, .int z] => some ⟨x, y, z⟩
  | _ => none

def entry (t : Tuple) (axis : Nat) : Except Fault Json :=
  match t[axis]? with
  | some v => .ok v
  | none => .error .tooFewCoordinates

def number (t : Tuple) (axis : Nat) : Except Fault Quantity := do
  Reading.quantity (← t.entry axis)

def asJson : Quantity → Json
  | .whole i => .int i
  | .real d => .float d

/-- A function of the entries of two tuples for each axis. -/
def onAxes (f : Nat → Except Fault Json) : Except Fault Json := do
  pure (.arr (← [0, 1, 2].mapM f))

/-- An operation on the numbers of two tuples for an axis. -/
def combined (op : Quantity → Quantity → Option Quantity) (a b : Tuple) (axis : Nat) :
    Except Fault Json := do
  let x ← a.number axis
  let y ← b.number axis
  pure (asJson (← Reading.inRange (op x y)))

def add (a b : Tuple) : Except Fault Json := onAxes (combined Quantity.add a b)

def sub (a b : Tuple) : Except Fault Json := onAxes (combined Quantity.sub a b)

/-- The entry of the first tuple for an axis, unless that of the second is preferred. -/
def preferred (better : Quantity → Quantity → Bool) (a b : Tuple) (axis : Nat) :
    Except Fault Json := do
  let x ← a.entry axis
  let y ← b.entry axis
  pure (if better (← Reading.quantity y) (← Reading.quantity x) then y else x)

def meet (a b : Tuple) : Except Fault Json := onAxes (preferred Quantity.isLess a b)

def join (a b : Tuple) : Except Fault Json :=
  onAxes (preferred (fun y x => Quantity.isLess x y) a b)

def volume (t : Tuple) : Except Fault Json := do
  let area ← Reading.inRange ((← t.number 0).mul (← t.number 1))
  pure (asJson (← Reading.inRange (area.mul (← t.number 2))))

def isWithin (t size : Tuple) (axis : Nat) : Except Fault Bool := do
  let c ← t.number axis
  if Quantity.isAtMost (.whole 0) c then pure (c.isLess (← size.number axis)) else pure false

def isInside (t size : Tuple) : Except Fault Bool := [0, 1, 2].allM (isWithin t size)

/-- A box stays within another box along an axis. -/
def fits (corner size bounds : Tuple) (axis : Nat) : Except Fault Bool := do
  let c ← corner.number axis
  if Quantity.isAtMost (.whole 0) c then
    let far ← Reading.inRange (c.add (← size.number axis))
    pure (far.isAtMost (← bounds.number axis))
  else pure false

/-- The box of size `size` at `corner` stays within the box of size `bounds`. -/
def boxFits (corner size bounds : Tuple) : Except Fault Bool :=
  [0, 1, 2].allM (fits corner size bounds)

def point (t : Tuple) : Except Fault Point := do
  let x ← Reading.counted (← t.entry 0)
  let y ← Reading.counted (← t.entry 1)
  let z ← Reading.counted (← t.entry 2)
  pure ⟨x, y, z⟩

/-- The points of the box of a tuple.  Extents behind one that is not positive are not needed. -/
def box (t : Tuple) : Except Fault (List Point) := do
  if (← Reading.counted (← t.entry 0)) ≤ 0 then pure []
  else if (← Reading.counted (← t.entry 1)) ≤ 0 then pure []
  else do pure (← t.point).box

/-- The point of a box that a document means.  A tuple that lies outside means a point outside. -/
def cell (v : Json) (size : Point) : Except Fault Point :=
  match plain? v with
  | some p => .ok p
  | none => do
      let t ← Reading.entries v
      if ← isInside t (ofPoint size) then point t else pure size

/-- **A point is found again from its tuple.** -/
@[simp] theorem point_ofPoint (p : Point) : (ofPoint p).point = .ok p := rfl

end Tuple

end Breadboard
