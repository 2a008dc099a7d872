import Breadboard.Grid.Reading
import Breadboard.Json.Access

/-!
**Points and turns in drafts.**

A draft is a document that describes parts, slots, wirings and circuits by hand.  A turn is given by
counts of quarter turns, or it is described: by a facing, by a matrix, as the inverse of a turn or
as a composition of turns.  Descriptions are read with the draft, counts when the turn is needed.

Main definitions:

* `Draft.point` — a point of three integers;
* `Draft.Rotation` — a turn as a draft gives it;
* `Draft.rotation` — reads the descriptions;
* `Draft.turn` — the turn.
-/

set_option autoImplicit false
set_option relaxedAutoImplicit false

namespace Breadboard

namespace Draft

/-- The point with the three integers of a list; any other document stands for the origin. -/
def point (v : Json) : Point :=
  match v.wholes with
  | [x, y, z] => ⟨x, y, z⟩
  | _ => .origin

def heading (v : Json) : Except Fault Heading :=
  match Heading.ofName? v.text with
  | some h => .ok h
  | none => .error .unknownKey

/-- A turn as a draft gives it. -/
inductive Rotation where
  | turn (turn : Turn)
  /-- Counts of quarter turns, which are still to be read. -/
  | counts (counts : Json)

namespace Rotation

instance : Inhabited Rotation := ⟨turn .identity⟩

def read : Rotation → Except Fault Turn
  | turn t => .ok t
  | counts v => Reading.turn v

end Rotation

/-- The turn with up to three counts of quarter turns. -/
def quarters : List Int → Except Fault Turn
  | [] => .ok .identity
  | [x] => .ok (.ofQuarters x 0 0)
  | [x, y] => .ok (.ofQuarters x y 0)
  | [x, y, z] => .ok (.ofQuarters x y z)
  | _ => .error .wrongType

/-- The first of several turns after the second, after the third, and so on. -/
def composed : List Turn → Turn
  | [] => .identity
  | first :: rest => rest.foldl Turn.after first

def rotation (v : Json) : Except Fault Rotation :=
  match hi : v.field? "inverse", v.field? "compose" with
  | some inner, _ => do
      have := Json.sizeOf_field?_lt hi
      pure (.turn (← (← rotation inner).read).inverse)
  | none, some _ => do
      let turns ← (v.itemsAt "compose").attach.mapM fun r => do
        have := Json.sizeOf_itemsAt_lt r.2
        (← rotation r.1).read
      pure (.turn (composed turns))
  | none, none =>
      match v.field? "facing", v.field? "matrix", v.field? "turns" with
      | some name, _, _ => do pure (.turn (.facing (← heading name)))
      | none, some rows, _ => do pure (.turn (← Reading.matrixTurn rows))
      | none, none, some counts => do
          let counts ← (← Reading.entries counts).mapM Reading.counted
          pure (.turn (← quarters counts))
      | none, none, none => .ok (.counts v)
termination_by sizeOf v

def turn (v : Json) : Except Fault Turn := do (← rotation v).read

/-- The turn at a key, the identity if there is none. -/
def turnAt (v : Json) (key : String) : Except Fault Rotation :=
  match v.field? key with
  | some r => rotation r
  | none => .ok (.turn .identity)

end Draft

end Breadboard
