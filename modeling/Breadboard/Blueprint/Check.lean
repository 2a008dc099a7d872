import Breadboard.Fault
import Breadboard.Text.Blank
import Breadboard.Text.Numeral

/-!
**Checked values of documents.**

A document is read against a model, and everything that does not fit is reported at once, in the
order of the model, each with the way to the offending value.

Main definitions:

* `Checked` — a value, or everything that is wrong with it;
* `Checked.map₂`, `Checked.all` — several values, whose reports add up;
* `Checked.under` — a value at a step inside a document;
* `Checked.integer`, `Checked.truth`, `Checked.text` — the simple values.
-/

set_option autoImplicit false
set_option relaxedAutoImplicit false

namespace Breadboard

universe u v w

/-- Something that is wrong with a document, with the way to it. -/
abbrev Issue := List DocumentStep × DocumentFlaw

abbrev Checked (α : Type u) := Except (List Issue) α

namespace Checked

variable {α : Type u} {β : Type v} {γ : Type w}

/-- A single flaw of the value itself. -/
def flaw (f : DocumentFlaw) : Checked α := .error [([], f)]

/-- Two values together; the reports of both are kept. -/
def map₂ (f : α → β → γ) : Checked α → Checked β → Checked γ
  | .ok a, .ok b => .ok (f a b)
  | .ok _, .error issues => .error issues
  | .error issues, .ok _ => .error issues
  | .error first, .error second => .error (first ++ second)

def under (step : DocumentStep) : Checked α → Checked α
  | .ok a => .ok a
  | .error issues => .error (issues.map fun i => (step :: i.1, i.2))

/-- A list of values; the reports of all are kept. -/
def all : List (Checked α) → Checked (List α)
  | [] => .ok []
  | a :: rest => map₂ (· :: ·) a (all rest)

/-- The items of a list, each at its place. -/
def items (check : Json → Checked α) (values : List Json) : Checked (List α) :=
  all (values.zipIdx.map fun (v, i) => under (.item i) (check v))

/-- The report as a cause of failure. -/
def orFault : Checked α → Except Fault α
  | .ok a => .ok a
  | .error issues => .error (.invalidDocument issues)

/-! ### Simple values -/

/-- The text behind zeros and underscores that follow a character: it begins with another digit,
with a minus sign, or with the character in front of a point.  Where nothing else follows, the last
character stays. -/
def behindZeros (before : Char) : List Char → Option (List Char)
  | [] => some [before]
  | c :: rest =>
      if c = '0' ∨ c = '_' then behindZeros c rest
      else if c = '.' then some (before :: c :: rest)
      else if c = '-' ∨ (Numeral.digit? c).isSome then some (c :: rest)
      else none

/-- A text that begins with a digit or with a minus sign, without zeros in front. -/
def withoutZeros : List Char → Option (List Char)
  | [] => none
  | c :: rest =>
      if c = '0' then behindZeros c rest
      else if c = '-' ∨ (Numeral.digit? c).isSome then some (c :: rest)
      else none

/-- A text without the first point and what follows it, if zeros follow it and nothing else does. -/
def withoutFraction (cs : List Char) : List Char :=
  let fraction := (cs.dropWhile fun c => c != '.').drop 1
  if !fraction.isEmpty && fraction.all (fun c => c == '0') then cs.takeWhile fun c => c != '.'
  else cs

def hasDoubled : List Char → Bool
  | '_' :: '_' :: _ => true
  | _ :: rest => hasDoubled rest
  | [] => false

/-- A text without its underscores, if all of them are single and stand inside it. -/
def withoutUnderscores (cs : List Char) : List Char :=
  if cs.head? == some '_' || cs.getLast? == some '_' || hasDoubled cs then cs
  else cs.filter fun c => c != '_'

/-- The integer that is written without a zero in front.  The digits are counted before what
follows them is looked at. -/
def plainInteger (cs : List Char) : Checked Int :=
  let (negative, body) := match cs with
    | '-' :: rest => (true, rest)
    | _ => (false, cs)
  if body = ['0'] then .ok 0
  else
    let (ds, rest) := Numeral.spanDigits body
    if body.head? == some '0' then flaw .unreadableInteger
    else if Numeral.digitLimit < ds.length then flaw .longInteger
    else if ds.isEmpty || !rest.isEmpty then flaw .unreadableInteger
    else .ok (if negative then -(Numeral.value ds : Int) else Numeral.value ds)

/-- A text without a plus sign in front, unless a minus sign follows it. -/
def withoutPlus : List Char → Option (List Char)
  | '+' :: '-' :: _ => none
  | '+' :: rest => some rest
  | cs => some cs

/-- The integer of a text.  The text may stand between blanks and have a sign; zeros in front of it,
single underscores inside it, and a point that only zeros follow make no difference. -/
def integerOfText (s : String) : Checked Int :=
  match (withoutPlus (Blank.trim Blank.isBlank s.toList)).bind withoutZeros with
  | some cs => plainInteger (withoutUnderscores (withoutFraction cs))
  | none => flaw .unreadableInteger

/-- The bound below which the absolute value of a number given with a fraction has to stay. -/
def wordBound : Nat := Double.twoTo 63

/-- The integer of a number without fraction. -/
def integerOfDouble (d : Double) : Checked Int :=
  if !d.isFinite then flaw .infiniteInteger
  else if !d.isWhole then flaw .fractionalInteger
  else if wordBound ≤ d.truncate.natAbs then flaw .longInteger
  else .ok d.truncate

/-- An integer, also given as a number without fraction, a truth value or a numeral. -/
def integer : Json → Checked Int
  | .int i => .ok i
  | .bool b => .ok (if b then 1 else 0)
  | .float d => integerOfDouble d
  | .str s => integerOfText s
  | .null | .arr _ | .obj _ => flaw .notInteger

def truthOfText (s : String) : Checked Bool :=
  let word := String.ofList (s.toList.map Char.toLower)
  if ["1", "on", "t", "true", "y", "yes"].contains word then .ok true
  else if ["0", "off", "f", "false", "n", "no"].contains word then .ok false
  else flaw .notBoolean

def text : Json → Checked String
  | .str s => .ok s
  | _ => flaw .notText

def fields : Json → Checked (List (String × Json))
  | .obj entries => .ok entries
  | _ => flaw .notModel

/-- The value of a field, or a default if the field is not there. -/
def optional (check : Json → Checked α) (dflt : α) (name : String)
    (entries : List (String × Json)) : Checked α :=
  match Keyed.find? name entries with
  | some v => under (.key name) (check v)
  | none => .ok dflt

/-- The value of the first of several fields that is there; the first name is reported if none
is. -/
def required (check : Json → Checked α) (name : String) (others : List String)
    (entries : List (String × Json)) : Checked α :=
  match (name :: others).find? fun n => Keyed.has n entries with
  | some n => under (.key n) (check ((Keyed.find? n entries).getD .null))
  | none => under (.key name) (flaw .missing)

end Checked

end Breadboard
