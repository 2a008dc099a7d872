import Breadboard.Draft.Turn
import Breadboard.Index
import Breadboard.Wiring.Basic

/-!
**Wirings in drafts.**

A wiring is given by its axes, by an offset, by a rule that sends points to points, or it is put
together from other wirings.  A filter keeps the pairs that meet a condition on their coordinates.

Main definitions:

* `Draft.axes` — the axes along which a wiring fans out;
* `Draft.meets` — a pair meets a condition;
* `Draft.image` — the image of a point under a rule;
* `Draft.wiring` — the wiring.
-/

set_option autoImplicit false
set_option relaxedAutoImplicit false

namespace Breadboard

namespace Draft

def axes (v : Json) : Except Fault Wiring := do
  let (x, y, z) ← Reading.triple (← Reading.entries v)
  pure (.dim x.isTrue y.isTrue z.isTrue)

/-- The coordinate of a point on an axis, by the axis's number. -/
def coordinate (p : Point) (axis : Json) : Except Fault Int := do
  match Index.get? p.toList (← Reading.counted axis) with
  | some c => pure c
  | none => throw .tooFewCoordinates

/-! ### Conditions -/

/-- A coordinate of the start or of the end is less than, equal to or greater than a value.  Only
numbers are less or greater. -/
def compares (v : Json) (start stop : Point) : Except Fault Bool := do
  let c ← coordinate (if v.textAt "side" = "end" then stop else start) (v.get "axis")
  let value := v.get "value"
  match v.textAt "cmp" with
  | "lt" => pure (Quantity.isLess (.whole c) (← Reading.quantity value))
  | "gt" => pure (Quantity.isLess (← Reading.quantity value) (.whole c))
  | _ => pure (Reading.equalsInt value c)

/-- A pair of points meets a condition: start and end agree on an axis, a condition fails, all or
any of several conditions hold, or a coordinate compares.  Conditions that decide nothing any more
are not looked at. -/
def meets (v : Json) (start stop : Point) : Except Fault Bool :=
  match hn : v.field? "not", v.field? "all", v.field? "any", v.field? "same" with
  | some inner, _, _, _ => do
      have := Json.sizeOf_field?_lt hn
      pure !(← meets inner start stop)
  | none, some _, _, _ => (v.itemsAt "all").attach.allM fun c =>
      have := Json.sizeOf_itemsAt_lt c.2
      meets c.1 start stop
  | none, none, some _, _ => (v.itemsAt "any").attach.anyM fun c =>
      have := Json.sizeOf_itemsAt_lt c.2
      meets c.1 start stop
  | none, none, none, some axis => do
      let a ← coordinate start axis
      let b ← coordinate stop axis
      pure (a == b)
  | none, none, none, none => compares v start stop
termination_by sizeOf v

/-! ### Rules for points -/

/-- The scalar product of a row with a point. -/
def product (row : List Json) (p : Point) : Except Fault Quantity :=
  (row.zip p.toList).foldlM (fun total e => do
    let term ← Reading.inRange ((← Reading.quantity e.1).mul (.whole e.2))
    Reading.inRange (total.add term)) (.whole 0)

/-- The image of a point under a matrix and an offset. -/
def affine (v : Json) (p : Point) : Except Fault (Option Point) := do
  let image ← ((v.itemsAt "matrix").zip (v.itemsAt "offset")).mapM fun r => do
    let total ← product r.1.items p
    Reading.inRange (total.add (← Reading.quantity r.2))
  match ← image.mapM Reading.ofQuantity with
  | [x, y, z] => pure (some ⟨x, y, z⟩)
  | _ => throw .wrongType

/-- The image of a point in a table, in which the last of several images counts. -/
def tabled (table : List Json) (p : Point) : Except Fault (Option Point) :=
  let images : List Json := table.filterMap fun e => match e with
    | .arr [source, image] => if Reading.isPoint source p then some image else none
    | _ => none
  match images.getLast? with
  | none => .ok none
  | some .null => .ok none
  | some image => do pure (some (← Reading.point image))

/-- A coordinate leaves a rest when it is divided by a number. -/
def leaves (c : Int) (divisor rest : Json) : Except Fault Bool := do
  let divisor ← Reading.quantity divisor
  if divisor.equals (.whole 0) then throw (.zeroDivisor (decide (divisor ≠ .whole 0)))
  else
    match Reading.quantity rest, divisor.remainder? c with
    | .ok rest, some (n, d) => pure (rest.fraction?.any fun f => f.1 * d == n * f.2)
    | .ok rest, none => pure (Quantity.isLess (.whole c) divisor && rest.equals (.whole c))
    | .error _, _ => pure false

def image (v : Json) (p start stop : Point) : Except Fault (Option Point) :=
  match v.textAt "fn" with
  | "affine" => affine v p
  | "mirror" => .ok (some (stop - .one - p))
  | "start_minus" => .ok (some (start - .one - p))
  | "every" => do
      let kept ← leaves (← coordinate p (v.get "axis")) (v.get "n") (v.get "rem")
      pure (if kept then some p else none)
  | _ => tabled (v.itemsAt "pairs") p

/-! ### Wirings -/

/-- The box from which a step starts, if it is given. -/
def stepBox : Json → Except Fault (Option Point)
  | .null => .ok none
  | box => do pure (some (← Reading.size box).extents)

def wiring (v : Json) : Except Fault Wiring :=
  match hf : v.field? "filter", hw : v.field? "wrap", hj : v.field? "joint" with
  | some inner, _, _ => do
      have := Json.sizeOf_field?_lt hf
      pure (.filter (← wiring inner) (meets (v.get "where")))
  | none, some inner, _ => do
      have := Json.sizeOf_field?_lt hw
      pure (.joint (← wiring inner) [])
  | none, none, some first => do
      have := Json.sizeOf_field?_lt hj
      let first ← wiring first
      (v.itemsAt "chain").attach.foldlM (fun w step => match hs : step.1.items with
        | [box, next] => do
            have hnext := Json.sizeOf_items_lt (v := step.1) (w := next) (by simp [hs])
            have := Nat.lt_trans hnext (Json.sizeOf_itemsAt_lt step.2)
            let next ← wiring next
            pure (w.chain (← stepBox box) next)
        | _ => .ok w) first
  | none, none, none =>
      match v.field? "dim", v.field? "shift", v.field? "map" with
      | some marked, _, _ => axes marked
      | none, some offset, _ => do pure (.shift (← Reading.point offset))
      | none, none, some rule => .ok (.map (rule.textAt "fn") (image rule))
      | none, none, none => .ok .straight
termination_by sizeOf v

end Draft

end Breadboard
