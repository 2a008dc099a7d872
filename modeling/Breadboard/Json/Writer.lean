import Breadboard.Json.Basic
import Breadboard.Number.Shortest
import Breadboard.Text.Numeral
import Breadboard.Text.Quoted
import Breadboard.Text.Unpaired

/-!
**Writing documents.**

Items are separated by a comma and a space, a key and its value by a colon and a space.  Texts are
written as they are except for quotation marks, backslashes and control characters; where only
ASCII may appear, everything else is written by its 16-bit units.  An unpaired unit can be written
in this way alone, and an integer only if it does not have too many digits.

Main definitions:

* `Json.Alphabet` — the characters that may appear in a written document;
* `Json.write` — the written document;
* `Json.writeFlaw?` — the first thing in a document that cannot be written.
-/

set_option autoImplicit false
set_option relaxedAutoImplicit false

namespace Breadboard

namespace Json

/-- The characters that may appear in a written document. -/
inductive Alphabet where
  | unicode
  /-- The characters of ASCII from the space to the tilde. -/
  | ascii
  deriving DecidableEq

def writeUnit (n : Nat) : List Char := '\\' :: 'u' :: Quoted.hex 4 n

/-- A character by the codes of its 16-bit units. -/
def writeUnits (c : Char) : List Char :=
  let n := (Unpaired.unit? c).getD c.toNat
  if n < 0x10000 then writeUnit n
  else writeUnit (0xd800 + (n - 0x10000) / 0x400) ++ writeUnit (0xdc00 + (n - 0x10000) % 0x400)

def writeChar (alphabet : Alphabet) : Char → List Char
  | '"' => ['\\', '"']
  | '\\' => ['\\', '\\']
  | '\n' => ['\\', 'n']
  | '\r' => ['\\', 'r']
  | '\t' => ['\\', 't']
  | '\x08' => ['\\', 'b']
  | '\x0c' => ['\\', 'f']
  | c =>
      if c.toNat < 0x20 then writeUnits c
      else if alphabet = .ascii ∧ 0x7e < c.toNat then writeUnits c
      else [c]

def writeText (alphabet : Alphabet) (s : String) : String :=
  String.ofList ('"' :: (s.toList.flatMap (writeChar alphabet) ++ ['"']))

/-- A number with a fraction; the values that are no decimals are written by name. -/
def writeDouble (d : Double) : String :=
  if d.isNaN then "NaN"
  else if d.isInfinite then (if d.isNegative then "-Infinity" else "Infinity")
  else d.render

mutual

def write (alphabet : Alphabet) : Json → String
  | null => "null"
  | bool b => if b then "true" else "false"
  | int i => toString i
  | float d => writeDouble d
  | str s => writeText alphabet s
  | arr items => "[" ++ ", ".intercalate (writeItems alphabet items) ++ "]"
  | obj fields => "\x7b" ++ ", ".intercalate (writeFields alphabet fields) ++ "\x7d"

def writeItems (alphabet : Alphabet) : List Json → List String
  | [] => []
  | item :: rest => write alphabet item :: writeItems alphabet rest

def writeFields (alphabet : Alphabet) : List (String × Json) → List String
  | [] => []
  | (key, value) :: rest =>
      (writeText alphabet key ++ ": " ++ write alphabet value) :: writeFields alphabet rest

end

/-! ### What cannot be written -/

/-- Why a document is not written. -/
inductive WriteFlaw where
  | unpairedUnit
  | longInteger
  deriving DecidableEq

def textFlaw? (alphabet : Alphabet) (s : String) : Option WriteFlaw :=
  if alphabet = .unicode ∧ Unpaired.occursIn s then some .unpairedUnit else none

mutual

def writeFlaw? (alphabet : Alphabet) : Json → Option WriteFlaw
  | null | bool _ | float _ => none
  | int i => if Numeral.isWritable i then none else some .longInteger
  | str s => textFlaw? alphabet s
  | arr items => itemsFlaw? alphabet items
  | obj fields => fieldsFlaw? alphabet fields

/-- The first thing in the items of a list that cannot be written. -/
def itemsFlaw? (alphabet : Alphabet) : List Json → Option WriteFlaw
  | [] => none
  | item :: rest => (writeFlaw? alphabet item).or (itemsFlaw? alphabet rest)

/-- The first thing in the fields of an object that cannot be written. -/
def fieldsFlaw? (alphabet : Alphabet) : List (String × Json) → Option WriteFlaw
  | [] => none
  | (key, value) :: rest =>
      ((textFlaw? alphabet key).or (writeFlaw? alphabet value)).or (fieldsFlaw? alphabet rest)

end

end Json

end Breadboard
