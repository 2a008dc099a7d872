import Breadboard.Keyed
import Breadboard.Number.Double

/-!
**Documents.**

A document is a tree of lists and objects over texts and numbers.  Integers and numbers with a
fraction are told apart, and an object keeps its fields in the order in which they first came.

Main definitions:

* `Json` — the documents;
* `Json.field?` — the value of a key.
-/

set_option autoImplicit false
set_option relaxedAutoImplicit false

namespace Breadboard

/-- A document. -/
inductive Json where
  | null
  | bool (value : Bool)
  | int (value : Int)
  | float (value : Double)
  | str (value : String)
  | arr (items : List Json)
  | obj (fields : List (String × Json))
  deriving Inhabited

namespace Json

def kindName : Json → String
  | null => "NoneType"
  | bool _ => "bool"
  | int _ => "int"
  | float _ => "float"
  | str _ => "str"
  | arr _ => "list"
  | obj _ => "dict"

/-- The value of a key; a document that is no object has none. -/
def field? (key : String) : Json → Option Json
  | obj fields => Keyed.find? key fields
  | _ => none

end Json

end Breadboard
