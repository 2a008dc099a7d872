import Breadboard.Text.Printable

/-!
**Quoted text.**

Messages show a text between quotation marks: single ones, or double ones if the text holds a
single mark and no double one.  A mark of the chosen kind and the backslash are escaped by a
backslash, a character that is not printable by its code.

Main definitions:

* `Quoted.hex` — a number in hexadecimal digits, padded to a width;
* `Quoted.mark` — the mark around a text;
* `Quoted.code` — a character by its code;
* `Quoted.quote` — the quotation.
-/

set_option autoImplicit false
set_option relaxedAutoImplicit false

namespace Breadboard

namespace Quoted

def hex (width n : Nat) : List Char :=
  let digits := Nat.toDigits 16 n
  List.replicate (width - digits.length) '0' ++ digits

def mark (cs : List Char) : Char :=
  if cs.contains '\'' && !cs.contains '"' then '"' else '\''

def code (c : Char) : List Char :=
  if c.toNat < 0x100 then '\\' :: 'x' :: hex 2 c.toNat
  else if c.toNat < 0x10000 then '\\' :: 'u' :: hex 4 c.toNat
  else '\\' :: 'U' :: hex 8 c.toNat

/-- A character inside a quotation with the mark `q`. -/
def escape (q c : Char) : List Char :=
  if c = q then ['\\', c]
  else match c with
    | '\\' => ['\\', '\\']
    | '\t' => ['\\', 't']
    | '\n' => ['\\', 'n']
    | '\r' => ['\\', 'r']
    | c => if Printable.isPrintable c then [c] else code c

def quote (s : String) : String :=
  let cs := s.toList
  let q := mark cs
  String.ofList (q :: (cs.flatMap (escape q) ++ [q]))

end Quoted

end Breadboard
