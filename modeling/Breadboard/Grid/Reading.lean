import Breadboard.Grid.Storage
import Breadboard.Grid.Turn
import Breadboard.Number.Quantity
import Breadboard.Text.Numeral

/-!
**Points and turns in documents.**

A document may give a point as any three values that denote integers: numbers, whose fraction is
cut off, truth values, and numerals.  A text stands for its characters and an object for its keys.

Main definitions:

* `Reading.integer` — the integer that a value denotes;
* `Reading.entries` — the values that a document is a sequence of;
* `Reading.quantity`, `Reading.counted` — a number, and an integer that is given as one;
* `Reading.point`, `Reading.size` — a point, and a point without negative coordinates;
* `Reading.arraySize` — the size of a box over which there can be an array;
* `Reading.turn` — a turn by its counts of quarter turns;
* `Reading.wordPoint`, `Reading.matrixTurn` — a point and a matrix of words;
* `Reading.heading` — a heading by its unit vector.
-/

set_option autoImplicit false
set_option relaxedAutoImplicit false

namespace Breadboard

namespace Reading

def ofDouble (d : Double) : Except Fault Int :=
  if d.isNaN then .error .nanToInteger
  else if d.isInfinite then .error .outOfRange
  else .ok d.truncate

def ofText (s : String) : Except Fault Int :=
  match Numeral.readInt s with
  | .ok i => .ok i
  | .error .malformed => .error (.badInteger s)
  | .error (.tooLong digits) => .error (.longInteger digits)

def integer : Json → Except Fault Int
  | .int i => .ok i
  | .bool b => .ok (if b then 1 else 0)
  | .float d => ofDouble d
  | .str s => ofText s
  | .null | .arr _ | .obj _ => .error .wrongType

/-- The number that a value is; truth values count as zero and one. -/
def quantity : Json → Except Fault Quantity
  | .int i => .ok (.whole i)
  | .bool b => .ok (.whole (if b then 1 else 0))
  | .float d => .ok (.real d)
  | .null | .str _ | .arr _ | .obj _ => .error .wrongType

/-- The integer that a value is; a number with a fraction is none, even if the fraction is zero. -/
def counted (v : Json) : Except Fault Int := do
  match ← quantity v with
  | .whole i => pure i
  | .real _ => throw .wrongType

def ofQuantity : Quantity → Except Fault Int
  | .whole i => .ok i
  | .real d => ofDouble d

/-- The result of an operation on quantities, unless it is out of their range. -/
def inRange : Option Quantity → Except Fault Quantity
  | some q => .ok q
  | none => .error .outOfRange

def entries : Json → Except Fault (List Json)
  | .arr items => .ok items
  | .str s => .ok (s.toList.map fun c => .str (String.ofList [c]))
  | .obj fields => .ok (fields.map fun f => .str f.1)
  | .null | .bool _ | .int _ | .float _ => .error .wrongType

/-- The three values of a sequence of three. -/
def triple {α : Type} : List α → Except Fault (α × α × α)
  | [a, b, c] => .ok (a, b, c)
  | items =>
      if items.length < 3 then .error (.tooFewValues 3 items.length)
      else .error (.tooManyValues 3)

def pair {α : Type} : List α → Except Fault (α × α)
  | [a, b] => .ok (a, b)
  | items =>
      if items.length < 2 then .error (.tooFewValues 2 items.length)
      else .error (.tooManyValues 2)

def point (v : Json) : Except Fault Point := do
  let (a, b, c) ← triple (← entries v)
  let x ← integer a
  let y ← integer b
  let z ← integer c
  pure ⟨x, y, z⟩

def asSize (p : Point) : Except Fault Size :=
  if h : p.isSize = true then .ok ⟨p, h⟩ else .error (.negativeSize p)

def size (v : Json) : Except Fault Size := do
  asSize (← point v)

/-- The size of a box that a document denotes and over which there can be an array. -/
def arraySize (v : Json) : Except Fault Size := do
  let s ← size v
  s.checkArray
  pure s

/-- The turn with the counts of quarter turns about `x`, `y` and `z` that a document denotes. -/
def turn (v : Json) : Except Fault Turn := do
  let p ← point v
  pure (Turn.ofQuarters p.x p.y p.z)

/-! ### Arrays of words -/

def word (v : Json) : Except Fault Int := do
  let i ← integer v
  if Word.fits i then pure i else throw .outOfRange

/-- An array of words of any depth. -/
inductive WordArray where
  | word (value : Int)
  | list (items : List WordArray)
  deriving Inhabited

namespace WordArray

mutual

/-- The lengths along the first entries of an array. -/
def shape : WordArray → List Nat
  | word _ => []
  | list items => items.length :: headShape items

/-- The lengths along the first entries of the first item. -/
def headShape : List WordArray → List Nat
  | [] => []
  | item :: _ => shape item

end

mutual

/-- Every item at a depth has the same length. -/
def hasShape : List Nat → WordArray → Bool
  | [], word _ => true
  | n :: rest, list items => items.length == n && itemsHaveShape rest items
  | _, _ => false

def itemsHaveShape (lengths : List Nat) : List WordArray → Bool
  | [] => true
  | item :: rest => hasShape lengths item && itemsHaveShape lengths rest

end

mutual

/-- The text of an array inside a message. -/
def display : WordArray → String
  | word value => toString value
  | list items => "[" ++ ", ".intercalate (displayAll items) ++ "]"

def displayAll : List WordArray → List String
  | [] => []
  | item :: rest => display item :: displayAll rest

end

def row? : WordArray → Option (List Int)
  | list items => items.mapM fun
      | word value => some value
      | list _ => none
  | word _ => none

def rows? : WordArray → Option (List (List Int))
  | list items => items.mapM row?
  | word _ => none

end WordArray

mutual

/-- The array that a document denotes, whatever its shape; words are converted in order. -/
def wordArray : Json → Except Fault WordArray
  | .arr items => do pure (.list (← wordArrays items))
  | v => do pure (.word (← word v))

/-- The arrays that a list of documents denotes. -/
def wordArrays : List Json → Except Fault (List WordArray)
  | [] => .ok []
  | item :: rest => do
      let a ← wordArray item
      let as ← wordArrays rest
      pure (a :: as)

end

mutual

/-- The lists of a document nested like the items of an array, with zeros for the values. -/
def outline : Json → WordArray
  | .arr items => .list (outlines items)
  | _ => .word 0

def outlines : List Json → List WordArray
  | [] => []
  | item :: rest => outline item :: outlines rest

end

/-- An array whose items agree in length at every depth. -/
def evenArray (v : Json) : Except Fault WordArray :=
  let o := outline v
  if o.hasShape o.shape then wordArray v else .error .wrongShape

def wordPoint (v : Json) : Except Fault Point := do
  match (← evenArray v).row? with
  | some [x, y, z] => pure ⟨x, y, z⟩
  | _ => throw .wrongShape

def matrixTurn (v : Json) : Except Fault Turn := do
  let array ← evenArray v
  match array.rows? with
  | none => throw (.notOrthogonal array.display)
  | some rows =>
      match Turn.ofRows? rows with
      | .ok t => pure t
      | .error .notOrthogonal => throw (.notOrthogonal array.display)
      | .error .reflection => throw (.reflection array.display)

/-- The image of a point in word arithmetic. -/
def moved (t : Turn) (p : Point) : Except Fault Point :=
  match t.move p with
  | some q => .ok q
  | none => .error .outOfRange

/-- The text of a turn inside a message, by the rows of its matrix. -/
def displayTurn (t : Turn) : String := "Rot([" ++ ", ".intercalate (t.rows.map displayInts) ++ "])"

/-! ### Headings -/

/-- A value equals an integer; truth values count as zero and one. -/
def equalsInt (v : Json) (i : Int) : Bool :=
  match v with
  | .int j => j == i
  | .bool b => (if b then 1 else 0) == i
  | .float d => d.equalsInt i
  | _ => false

/-- A document lists the coordinates of a point. -/
def isPoint (v : Json) (p : Point) : Bool :=
  match v with
  | .arr [x, y, z] => equalsInt x p.x && equalsInt y p.y && equalsInt z p.z
  | _ => false

def heading (vector : List Json) : Except Fault Heading :=
  let isScalar (v : Json) : Bool := match v with
    | .arr _ | .obj _ => false
    | _ => true
  let isVector (h : Heading) : Bool := match vector with
    | [a, b, c] => equalsInt a h.vector.x && equalsInt b h.vector.y && equalsInt c h.vector.z
    | _ => false
  if !vector.all isScalar then .error .wrongType
  else match Heading.all.find? isVector with
  | some h => .ok h
  | none => .error (.notUnitVector (displayTuple (Json.displayItems vector)))

end Reading

end Breadboard
