import Breadboard.Json.Basic
import Breadboard.Text.Numeral
import Breadboard.Text.Unpaired

/-!
**Reading documents.**

The reader takes one document, possibly between blanks, and nothing else.  Besides numbers it
accepts the names of the values that are no decimals.  A key that comes again replaces the earlier
value.  An unpaired 16-bit unit becomes the character that stands for it.  An integer must not have
too many digits, and lists and objects must not stand too deep inside one another.

Main definitions:

* `ReadFlaw` — why a text is not read;
* `Json.readValue`, `Json.readItems`, `Json.readFields` — a document, the rest of a list, the rest
  of an object, at the front of a text;
* `Json.read` — the document of a text.
-/

set_option autoImplicit false
set_option relaxedAutoImplicit false

namespace Breadboard

/-- Why a text is not read. -/
inductive ReadFlaw where
  /-- The text is no document. -/
  | malformed
  | longInteger (digits : Nat)
  /-- A list or an object stands inside too many others. -/
  | tooDeep (inObject : Bool)
  deriving DecidableEq

namespace Json

abbrev Reads := Except ReadFlaw

/-- What is there, in a text that is no document otherwise. -/
def wellFormed {α : Type} : Option α → Reads α
  | some a => .ok a
  | none => .error .malformed

/-- The blanks between the tokens of a document. -/
def isGap (c : Char) : Bool := c == ' ' || c == '\t' || c == '\n' || c == '\r'

/-- The text without blanks at the front. -/
def skipGap (cs : List Char) : List Char := cs.dropWhile isGap

/-- The rest of a text that begins with the given word. -/
def expect (word cs : List Char) : Option (List Char) :=
  if word.isPrefixOf cs then some (cs.drop word.length) else none

def hexDigit? (c : Char) : Option Nat :=
  let n := c.toNat
  if 48 ≤ n ∧ n ≤ 57 then some (n - 48)
  else if 97 ≤ n ∧ n ≤ 102 then some (n - 87)
  else if 65 ≤ n ∧ n ≤ 70 then some (n - 55)
  else none

/-- The 16-bit unit of four hexadecimal digits at the front of a text. -/
def readUnit : List Char → Option (Nat × List Char)
  | a :: b :: c :: d :: rest => do
      let a ← hexDigit? a
      let b ← hexDigit? b
      let c ← hexDigit? c
      let d ← hexDigit? d
      pure (((a * 16 + b) * 16 + c) * 16 + d, rest)
  | _ => none

/-- The character of the units at the front of a text that follows the escape sign; a high unit
takes the low unit after it along. -/
def readUnits (cs : List Char) : Option (Char × List Char) := do
  let (high, rest) ← readUnit cs
  if 0xd800 ≤ high ∧ high ≤ 0xdbff then
    match rest with
    | '\\' :: 'u' :: more =>
        match readUnit more with
        | some (low, after) =>
            if 0xdc00 ≤ low ∧ low ≤ 0xdfff then
              pure (Char.ofNat (0x10000 + (high - 0xd800) * 0x400 + (low - 0xdc00)), after)
            else pure (Unpaired.stand high, rest)
        | none => pure (Unpaired.stand high, rest)
    | _ => pure (Unpaired.stand high, rest)
  else if 0xdc00 ≤ high ∧ high ≤ 0xdfff then pure (Unpaired.stand high, rest)
  else pure (Char.ofNat high, rest)

def escaped? : Char → Option Char
  | '"' => some '"'
  | '\\' => some '\\'
  | '/' => some '/'
  | 'b' => some '\x08'
  | 'f' => some '\x0c'
  | 'n' => some '\n'
  | 'r' => some '\r'
  | 't' => some '\t'
  | _ => none

/-- The characters up to the closing quotation mark, and the text after it; `fuel` is at least the
length of the text. -/
def readText : Nat → List Char → Option (List Char × List Char)
  | 0, _ => none
  | fuel + 1, cs =>
      match cs with
      | [] => none
      | '"' :: rest => some ([], rest)
      | '\\' :: 'u' :: rest => do
          let (c, rest) ← readUnits rest
          let (text, rest) ← readText fuel rest
          pure (c :: text, rest)
      | '\\' :: e :: rest => do
          let c ← escaped? e
          let (text, rest) ← readText fuel rest
          pure (c :: text, rest)
      | c :: rest =>
          if c.toNat < 0x20 ∨ c = '\\' then none
          else do
            let (text, rest) ← readText fuel rest
            pure (c :: text, rest)

/-- The exponent at the front of a text, if a complete one is there. -/
def readExponent (cs : List Char) : Option Int × List Char :=
  match cs with
  | c :: rest =>
      if c = 'e' ∨ c = 'E' then
        let (negative, body) := Numeral.splitSign rest
        let (ds, after) := Numeral.spanDigits body
        if ds.isEmpty then (none, cs)
        else (some (if negative then -(Numeral.value ds : Int) else Numeral.value ds), after)
      else (none, cs)
  | [] => (none, [])

/-- The fraction at the front of a text, if a complete one is there. -/
def readFraction (cs : List Char) : Option (List Nat) × List Char :=
  match cs with
  | '.' :: rest =>
      let (ds, after) := Numeral.spanDigits rest
      if ds.isEmpty then (none, cs) else (some ds, after)
  | _ => (none, cs)

/-- The unsigned number at the front of a text; a zero at the front stands alone. -/
def readNumber (negative : Bool) (cs : List Char) : Reads (Json × List Char) :=
  let (ds, afterInt) := match cs with
    | '0' :: rest => ([0], rest)
    | _ => Numeral.spanDigits cs
  if ds.isEmpty then .error .malformed
  else
    let (fraction, afterFraction) := readFraction afterInt
    let (exponent, rest) := readExponent afterFraction
    match fraction, exponent with
    | none, none =>
        if Numeral.digitLimit < ds.length then .error (.longInteger ds.length)
        else
          let n := Numeral.value ds
          .ok (int (if negative then -(n : Int) else n), rest)
    | _, _ =>
        let fs := fraction.getD []
        let d := Double.ofDecimal (Numeral.value (ds ++ fs)) (exponent.getD 0 - fs.length)
        .ok (float (if negative then d.negate else d), rest)

def words : List (List Char × Json) :=
  [(['n', 'u', 'l', 'l'], null), (['t', 'r', 'u', 'e'], bool true),
   (['f', 'a', 'l', 's', 'e'], bool false), (['N', 'a', 'N'], float .nan),
   (['I', 'n', 'f', 'i', 'n', 'i', 't', 'y'], float .infinity),
   (['-', 'I', 'n', 'f', 'i', 'n', 'i', 't', 'y'], float Double.infinity.negate)]

/-- A word or a number at the front of a text. -/
def readAtom (cs : List Char) : Reads (Json × List Char) :=
  match words.findSome? fun w => (expect w.1 cs).map fun rest => (w.2, rest) with
  | some found => .ok found
  | none =>
      match cs with
      | '-' :: rest => readNumber true rest
      | _ => readNumber false cs

/-- The number of lists and objects that may stand inside one another. -/
def depthLimit : Nat := 985

mutual

/-- The document at the front of a text; `fuel` bounds the number of tokens, and `room` the number
of lists and objects that may stand inside one another. -/
def readValue : Nat → Nat → List Char → Reads (Json × List Char)
  | 0, _, _ => .error .malformed
  | fuel + 1, room, cs =>
      match cs with
      | '"' :: rest => do
          let (text, after) ← wellFormed (readText (rest.length + 1) rest)
          pure (str (String.ofList text), after)
      | '[' :: rest =>
          if room = 0 then .error (.tooDeep false)
          else
            match skipGap rest with
            | ']' :: after => .ok (arr [], after)
            | items => do
                let (items, after) ← readItems fuel (room - 1) items
                pure (arr items, after)
      | '\x7b' :: rest =>
          if room = 0 then .error (.tooDeep true)
          else
            match skipGap rest with
            | '\x7d' :: after => .ok (obj [], after)
            | fields => do
                let (fields, after) ← readFields fuel (room - 1) [] fields
                pure (obj fields, after)
      | _ => readAtom cs

def readItems : Nat → Nat → List Char → Reads (List Json × List Char)
  | 0, _, _ => .error .malformed
  | fuel + 1, room, cs => do
      let (item, rest) ← readValue fuel room cs
      match skipGap rest with
      | ']' :: after => pure ([item], after)
      | ',' :: more => do
          let (items, after) ← readItems fuel room (skipGap more)
          pure (item :: items, after)
      | _ => throw .malformed

def readFields : Nat → Nat → List (String × Json) → List Char →
    Reads (List (String × Json) × List Char)
  | 0, _, _, _ => .error .malformed
  | fuel + 1, room, before, cs =>
      match cs with
      | '"' :: rest => do
          let (key, rest) ← wellFormed (readText (rest.length + 1) rest)
          let rest ← wellFormed (expect [':'] (skipGap rest))
          let (value, rest) ← readValue fuel room (skipGap rest)
          let fields := Keyed.insert (String.ofList key) value before
          match skipGap rest with
          | '\x7d' :: after => pure (fields, after)
          | ',' :: more => readFields fuel room fields (skipGap more)
          | _ => throw .malformed
      | _ => .error .malformed

end

def read (s : String) : Reads Json := do
  let cs := skipGap s.toList
  let (value, rest) ← readValue (2 * cs.length + 2) depthLimit cs
  if (skipGap rest).isEmpty then pure value else throw .malformed

end Json

end Breadboard
