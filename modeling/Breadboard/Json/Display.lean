import Breadboard.Grid.Point
import Breadboard.Json.Basic
import Breadboard.Number.Shortest
import Breadboard.Text.Quoted

/-!
**Values inside messages.**

Messages show values in a notation of their own: texts are quoted, lists stand in square brackets
and objects in braces, points in parentheses, and the three constants are capitalised.

Main definitions:

* `Json.display` — the text of a document inside a message;
* `Point.display` — the text of a point;
* `displayTexts`, `displayTuple` — the text of a list of texts and of a tuple.
-/

set_option autoImplicit false
set_option relaxedAutoImplicit false

namespace Breadboard

/-- The constants for the two truth values. -/
def displayBool (b : Bool) : String := if b then "True" else "False"

namespace Json

mutual

def display : Json → String
  | null => "None"
  | bool b => displayBool b
  | int i => toString i
  | float d => d.render
  | str s => Quoted.quote s
  | arr items => "[" ++ ", ".intercalate (displayItems items) ++ "]"
  | obj fields => "\x7b" ++ ", ".intercalate (displayFields fields) ++ "\x7d"

def displayItems : List Json → List String
  | [] => []
  | item :: rest => display item :: displayItems rest

/-- The texts of the fields of an object. -/
def displayFields : List (String × Json) → List String
  | [] => []
  | (key, value) :: rest => (Quoted.quote key ++ ": " ++ display value) :: displayFields rest

end

end Json

def displayTuple : List String → String
  | [entry] => "(" ++ entry ++ ",)"
  | entries => "(" ++ ", ".intercalate entries ++ ")"

def displayTexts (texts : List String) : String :=
  "[" ++ ", ".intercalate (texts.map Quoted.quote) ++ "]"

def displayInts (values : List Int) : String :=
  "[" ++ ", ".intercalate (values.map toString) ++ "]"

def Point.display (p : Point) : String := displayTuple (p.toList.map toString)

end Breadboard
