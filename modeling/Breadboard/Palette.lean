import Breadboard.Grid.Reading

/-!
**Colours of units that slots reach.**

Each slot has a base colour, and each channel is shaded by a slow wave along one coordinate of the
slot's point, so that neighbouring points differ a little.

Main definitions:

* `Palette.hexColor` — a colour by its channels, each cut to a byte;
* `Palette.colorOf` — a colour by channels that need not be integers;
* `Palette.shade` — a base colour at a point;
* `Palette.input`, `Palette.output` — the colour of a slot, by its number and the point.
-/

set_option autoImplicit false
set_option relaxedAutoImplicit false

namespace Breadboard

/-- A colour for each slot of a side, by the slot's number, and each of its points. -/
structure Palette where
  input : Int → Point → Except Fault String
  output : Int → Point → Except Fault String

namespace Palette

/-- The base colours of input slots, in turn. -/
def inputBases : List Point :=
  [⟨10, 62, 226⟩, ⟨208, 37, 37⟩, ⟨117, 20, 237⟩, ⟨207, 17, 210⟩,
   ⟨76, 111, 227⟩, ⟨240, 103, 103⟩, ⟨174, 121, 240⟩, ⟨238, 123, 240⟩]

/-- The base colours of output slots, in turn. -/
def outputBases : List Point :=
  [⟨25, 231, 83⟩, ⟨160, 234, 0⟩, ⟨44, 230, 230⟩, ⟨226, 219, 19⟩,
   ⟨104, 255, 136⟩, ⟨203, 246, 111⟩, ⟨126, 237, 237⟩, ⟨245, 240, 113⟩]

/-- A channel as two hexadecimal digits, cut to a byte. -/
def hexChannel (c : Int) : List Char := Quoted.hex 2 (max 0 (min 255 c)).toNat

def hexColor (rgb : Point) : String :=
  String.ofList (hexChannel rgb.x ++ hexChannel rgb.y ++ hexChannel rgb.z)

/-- A channel that is no integer counts only where it is cut to a byte. -/
def wholeChannel (c : Quantity) : Except Fault Int :=
  if !c.isLess (.whole 255) then .ok 255
  else if !Quantity.isLess (.whole 0) c then .ok 0
  else match c with
    | .whole i => .ok i
    | .real _ => .error .fractionalChannel

def colorOf (channels : List Quantity) : Except Fault String := do
  match ← if channels.length = 3 then channels.mapM wholeChannel else throw .wrongType with
  | [r, g, b] => pure (hexColor ⟨r, g, b⟩)
  | _ => throw .wrongType

/-- The wave at a coordinate: eighty times the sine of a tenth of it, rounded to the nearest
integer with halves going to the even neighbour.  A coordinate beyond the doubles has none, nor has
one that is not finite. -/
def wave (coordinate : Quantity) : Except Fault Int :=
  match coordinate.toDouble? with
  | none => .error .outOfRange
  | some d =>
      if d.isNaN then .error .nanToInteger
      else if d.isInfinite then .error .noSineOfInfinity
      else .ok (Double.ofFloat (Float.sin (d.toFloat / 10.0) * 80.0)).roundEven

/-- The base colour at a point, whose coordinates behind the third do not count. -/
def shade (base : Point) (coordinates : List Quantity) : Except Fault String := do
  let (x, y, z) ← Reading.triple (← (coordinates.take 3).mapM wave)
  pure (hexColor (base + ⟨x, y, z⟩))

/-- The base colour of the slot with the given number; the bases recur. -/
def baseOf (bases : List Point) (number : Int) : Point :=
  bases.getD (number % bases.length).toNat .origin

/-- The colour of an input slot at a point. -/
def inputColor (number : Int) (coordinates : List Quantity) : Except Fault String :=
  shade (baseOf inputBases number) coordinates

/-- The colour of an output slot at a point. -/
def outputColor (number : Int) (coordinates : List Quantity) : Except Fault String :=
  shade (baseOf outputBases number) coordinates

def coordinates (p : Point) : List Quantity := p.toList.map Quantity.whole

def standard : Palette where
  input := fun number p => inputColor number (coordinates p)
  output := fun number p => outputColor number (coordinates p)

end Palette

end Breadboard
