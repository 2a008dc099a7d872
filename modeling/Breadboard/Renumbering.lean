import Breadboard.Fault
import Breadboard.Index

/-!
**Renumbering units.**

Units are referred to by their indices, so references change when units are removed.  A table has
an entry for every old index: the new index, or nothing for a unit that was removed.

Main definitions:

* `Renumbering.dropFrom` — references after one unit was removed;
* `Renumbering.byTable` — references after a table;
* `Renumbering.keep` — the table that keeps the marked units in order.
-/

set_option autoImplicit false
set_option relaxedAutoImplicit false

namespace Breadboard

namespace Renumbering

/-- The references without those to one unit, in which references to later units have moved by an
offset. -/
def dropFrom (unit offset : Int) (ids : List Int) : List Int :=
  (ids.filter fun i => i != unit).map fun i => if unit < i then i + offset else i

/-- The references after a table, without those to units that were removed.  There is no answer if
a reference is not in the table. -/
def byTable (table : List (Option Int)) (ids : List Int) : Except Fault (List Int) :=
  match ids.mapM (Index.get? table) with
  | some entries => .ok (entries.filterMap id)
  | none => .error .indexOutOfRange

/-- The table that numbers the marked units in order, beginning with `next`. -/
def keepFrom (next : Int) : List Bool → List (Option Int)
  | [] => []
  | true :: flags => some next :: keepFrom (next + 1) flags
  | false :: flags => none :: keepFrom next flags

def keep (flags : List Bool) : List (Option Int) := keepFrom 0 flags

/-- The table that keeps the marked units under their old indices. -/
def keepInPlace (flags : List Bool) : List (Option Int) :=
  flags.zipIdx.map fun f => if f.1 then some (f.2 : Int) else none

@[simp] theorem length_keepFrom (next : Int) (flags : List Bool) :
    (keepFrom next flags).length = flags.length := by
  induction flags generalizing next with
  | nil => rfl
  | cons flag flags ih => cases flag <;> simp [keepFrom, ih]

@[simp] theorem length_keepInPlace (flags : List Bool) :
    (keepInPlace flags).length = flags.length := by
  simp [keepInPlace]

end Renumbering

end Breadboard
