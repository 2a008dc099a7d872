import Breadboard.Fault
import Breadboard.Grid.Dense
import Breadboard.Number.Word

/-!
**Arrays in storage.**

Not every box can have an array.  Its extents have to be words, and so has the number of bytes along
the axes that are not empty: an empty box is refused, too, if it is too wide.

Main definitions:

* `Size.checkArray` — there can be an array over a box;
* `Size.checkEmpty` — the same for a box without points;
* `Dense.array` — the array of a flat list;
* `Dense.ofNested` — the array of nested lists.
-/

set_option autoImplicit false
set_option relaxedAutoImplicit false

namespace Breadboard

namespace Size

/-- The number of bytes of a value of an array. -/
def bytesPerValue : Int := 8

def checkArray (s : Size) : Except Fault Unit :=
  let extents := s.extents.toList
  let bytes := (extents.filter fun n => n != 0).foldl (· * ·) bytesPerValue
  if !extents.all Word.fits then .error .extentTooLarge
  else if !Word.fits bytes then .error .boxTooLarge
  else .ok ()

/-- There can be an array over the box, unless it has points.  The values of a box with points that
is refused would take more than `2 ^ 63` bytes; where no limit of memory is considered, only the
empty boxes are checked. -/
def checkEmpty (s : Size) : Except Fault Unit :=
  if s.extents.volume = 0 then s.checkArray else .ok ()

end Size

namespace Dense

variable {α : Type}

def array (s : Size) (values : List α) : Except Fault (Dense α) := do
  s.checkArray
  match ofFlat? s values with
  | some d => pure d
  | none => throw (.wrongItemCount s.extents values.length)

/-! ### Nested lists -/

/-- The size of the box of nested lists, read off the first plane and its first row. -/
def nestedSize (planes : List (List (List α))) : Size :=
  let rows := planes.head?.getD []
  ⟨⟨(rows.head?.getD []).length, rows.length, planes.length⟩, by simp [Point.isSize_iff]⟩

/-- Every plane has so many rows, and every row so many items; a plane's rows are counted before
their items. -/
def checkNested (rows items : Nat) : List (List (List α)) → Except Fault Unit
  | [] => .ok ()
  | plane :: planes =>
      if plane.length ≠ rows then .error .unevenRows
      else if plane.any fun row => row.length ≠ items then .error .unevenItems
      else checkNested rows items planes

def ofNested (planes : List (List (List α))) : Except Fault (Dense α) := do
  let size := nestedSize planes
  checkNested size.extents.y.toNat size.extents.x.toNat planes
  array size planes.flatten.flatten

end Dense

end Breadboard
