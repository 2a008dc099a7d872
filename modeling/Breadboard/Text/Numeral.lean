import Breadboard.Number.Double
import Breadboard.Text.Blank
import Breadboard.Text.Digit

/-!
**Numerals in texts.**

A numeral may stand between blanks and may use the decimal digits of any script.  Between two
digits a single underscore is allowed.  An integer is an optional sign and digits; a number is an
optional sign and a decimal with an optional exponent, or the name of an infinity or of the value
that is not a number.

Main definitions:

* `Numeral.digits?` — digits with single underscores between them;
* `Numeral.readInt` — the integer of a text, or why there is none;
* `Numeral.isWritable` — an integer with few enough digits to be written;
* `Numeral.readDouble?` — the number of a text.
-/

set_option autoImplicit false
set_option relaxedAutoImplicit false

namespace Breadboard

namespace Numeral

/-- Why a text is not an integer. -/
inductive Flaw where
  /-- The text does not have the form of a numeral. -/
  | malformed
  | tooLong (digits : Nat)
  deriving DecidableEq

/-- The number of digits up to which an integer is converted. -/
def digitLimit : Nat := 4300

/-- The least natural that has more digits. -/
def writableBound : Nat := Double.tenTo digitLimit

def isWritable (i : Int) : Bool := decide (i.natAbs < writableBound)

/-- The characters of a numeral with every decimal digit in its ASCII form. -/
def plain (cs : List Char) : List Char :=
  cs.map fun c => match Digit.value? c with
    | some n => Char.ofNat (48 + n)
    | none => c

def digit? (c : Char) : Option Nat :=
  if 48 ≤ c.toNat ∧ c.toNat ≤ 57 then some (c.toNat - 48) else none

/-- The digits of a text that consists of digits with single underscores between them, and that
begins and ends with a digit. -/
def digits? : List Char → Option (List Nat)
  | [] => none
  | [c] => (digit? c).map fun d => [d]
  | c :: '_' :: rest => do
      let d ← digit? c
      let ds ← digits? rest
      pure (d :: ds)
  | c :: rest => do
      let d ← digit? c
      let ds ← digits? rest
      pure (d :: ds)

def value (digits : List Nat) : Nat := digits.foldl (fun n d => 10 * n + d) 0

/-- A sign in front of a text: whether it is a minus, and the rest. -/
def splitSign : List Char → Bool × List Char
  | '-' :: rest => (true, rest)
  | '+' :: rest => (false, rest)
  | cs => (false, cs)

/-- The character is a digit or stands between digits. -/
def isPart (c : Char) : Bool := c == '_' || (digit? c).isSome

/-- The integer that a text denotes.  The digits are counted before what follows them is looked
at. -/
def readInt (s : String) : Except Flaw Int :=
  let (negative, body) := splitSign (Blank.trim Blank.isBlank (plain s.toList))
  match digits? (body.takeWhile isPart) with
  | none => .error .malformed
  | some ds =>
      if digitLimit < ds.length then .error (.tooLong ds.length)
      else if !(body.dropWhile isPart).isEmpty then .error .malformed
      else .ok (if negative then -(value ds : Int) else value ds)

/-- Underscores stand only between two digits. -/
def underscoresFit : Option Char → List Char → Bool
  | _, [] => true
  | before, c :: rest =>
      (if c = '_' then
        (before.bind digit?).isSome && (rest.head?.bind digit?).isSome
      else true) && underscoresFit (some c) rest

/-- The digits at the front of a text and the rest. -/
def spanDigits (cs : List Char) : List Nat × List Char :=
  (cs.takeWhile (fun c => (digit? c).isSome) |>.filterMap digit?,
   cs.dropWhile fun c => (digit? c).isSome)

/-- The exponent part of a decimal, if it is well-formed; a missing one is zero. -/
def exponent? : List Char → Option Int
  | [] => some 0
  | c :: rest =>
      if c = 'e' ∨ c = 'E' then
        let (negative, body) := splitSign rest
        let (ds, after) := spanDigits body
        if ds.isEmpty ∨ !after.isEmpty then none
        else some (if negative then -(value ds : Int) else value ds)
      else none

/-- The digits and the exponent of an unsigned decimal. -/
def decimal? (cs : List Char) : Option (Nat × Int) :=
  let (whole, afterWhole) := spanDigits cs
  let (fraction, afterFraction) := match afterWhole with
    | '.' :: rest => spanDigits rest
    | rest => ([], rest)
  if whole.isEmpty ∧ fraction.isEmpty then none
  else (exponent? afterFraction).map fun e =>
    (value (whole ++ fraction), e - fraction.length)

def readDouble? (s : String) : Option Double :=
  let cs := Blank.trim Blank.isBlank (plain s.toList)
  if underscoresFit none cs then
    let (negative, body) := splitSign (cs.filter fun c => c != '_')
    let name := String.ofList (body.map Char.toLower)
    let magnitude : Option Double :=
      if name == "inf" || name == "infinity" then some .infinity
      else if name == "nan" then some .nan
      else (decimal? body).map fun d => Double.ofDecimal d.1 d.2
    magnitude.map fun d => if negative then d.negate else d
  else none

end Numeral

end Breadboard
