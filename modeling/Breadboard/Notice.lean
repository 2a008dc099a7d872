import Breadboard.Assembly.Diagnostics

/-!
**Lines of the log.**

Main definitions:

* `Notice` — what is reported without being an answer;
* `Notice.line` — its line: the reporting part of the program, the level and the text;
* `Diagnostics.notices`, `Diagnostics.noticesFor` — what is reported about paths that lead nowhere.
-/

set_option autoImplicit false
set_option relaxedAutoImplicit false

namespace Breadboard

/-- Something that is reported without being an answer. -/
inductive Notice where
  | leftOut (count : Nat)
  /-- A line about one of them, with the name of what was compiled. -/
  | unresolved (what line : String)
  | commandFailed (command : String) (fault : Fault)

namespace Notice

def line : Notice → String
  | leftOut count =>
      "smlogic.engine.combiner WARNING " ++ toString count
        ++ " unresolved reference(s) left out of the compiled scheme"
  | unresolved what line => "smlogic.presets.registry WARNING " ++ what ++ ": " ++ line
  | commandFailed command fault =>
      "smlogic.main ERROR " ++ command ++ " failed: " ++ fault.message

end Notice

namespace Diagnostics

def notices (d : Diagnostics) : List Notice := if d.isEmpty then [] else [.leftOut d.count]

def noticesFor (what : String) (d : Diagnostics) : List Notice :=
  d.notices ++ d.describe.map (.unresolved what)

end Diagnostics

end Breadboard
