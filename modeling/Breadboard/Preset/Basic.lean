import Breadboard.Fault
import Breadboard.Keyed
import Breadboard.Sorted
import Breadboard.Text.Numeral

/-!
**Presets.**

A preset makes a circuit from named parameters.  The default of a parameter fixes its type: a text
given for a parameter that is no text is converted to the type of the default.

Main definitions:

* `Parameter.coerce` — a value converted to the type of a default;
* `Preset` — a name, parameters with defaults, a description, and what is made of the values;
* `Preset.arguments`, `Preset.build` — the values of all parameters, and what is made of them;
* `Registry` — presets by name.
-/

set_option autoImplicit false
set_option relaxedAutoImplicit false

namespace Breadboard

namespace Parameter

/-- A text with its ASCII letters in lower case. -/
def lower (s : String) : String := String.ofList (s.toList.map Char.toLower)

/-- The truth value that a word stands for. -/
def truth? (s : String) : Option Bool :=
  if ["1", "true", "yes", "on"].contains (lower s) then some true
  else if ["0", "false", "no", "off"].contains (lower s) then some false
  else none

/-- A text converted to the type of a default that is no text. -/
def ofText (name s : String) : Json → Except Fault Json
  | .bool _ =>
      match truth? s with
      | some b => .ok (.bool b)
      | none => .error (.badBoolean name s)
  | .int _ =>
      match Numeral.readInt s with
      | .ok i => .ok (.int i)
      | .error _ => .error (.badNumber name "int" s)
  | .float _ =>
      match Numeral.readDouble? s with
      | some d => .ok (.float d)
      | none => .error (.badNumber name "float" s)
  | .arr _ => .ok (.arr (s.toList.map fun c => .str (String.ofList [c])))
  | .obj _ => if s = "" then .ok (.obj []) else .error (.badNumber name "dict" s)
  | .null => .error .wrongType
  | .str _ => .ok (.str s)

def coerce (name : String) (value dflt : Json) : Except Fault Json :=
  match value with
  | .str s => ofText name s dflt
  | _ => .ok value

end Parameter

/-- Something that is made from named parameters. -/
structure Preset (α : Type) where
  name : String
  /-- The parameters with their defaults, in order. -/
  params : Keyed Json
  description : String
  make : Keyed Json → α

namespace Preset

variable {α : Type}

/-- The value of one parameter: the override, converted, or the default. -/
def argument (overrides : Keyed Json) (param : String × Json) : Except Fault (String × Json) :=
  match Keyed.find? param.1 overrides with
  | some value => do pure (param.1, ← Parameter.coerce param.1 value param.2)
  | none => .ok param

/-- The overrides that name no parameter, sorted. -/
def unknownNames (p : Preset α) (overrides : Keyed Json) : List String :=
  Sorted.ofList Sorted.textLt
    ((Keyed.names overrides).filter fun name => !Keyed.has name p.params)

/-- The name under which a preset itself is passed, and which no value can have. -/
def reservedName : String := "self"

def arguments (p : Preset α) (overrides : Keyed Json) : Except Fault (Keyed Json) :=
  let unknown := p.unknownNames overrides
  if Keyed.has reservedName overrides then .error .wrongType
  else if unknown.isEmpty then p.params.mapM (argument overrides)
  else .error (.unknownParameters p.name unknown)

def build (p : Preset α) (overrides : Keyed Json) : Except Fault α := do
  pure (p.make (← p.arguments overrides))

end Preset

abbrev Registry (α : Type) := Keyed (Preset α)

namespace Registry

variable {α : Type}

/-- One more preset, under a name that is not in use. -/
def register (r : Registry α) (p : Preset α) : Except Fault (Registry α) :=
  if Keyed.has p.name r then .error (.duplicatePreset p.name) else .ok (r ++ [(p.name, p)])

def get (r : Registry α) (name : String) : Except Fault (Preset α) :=
  match Keyed.find? name r with
  | some p => .ok p
  | none => .error .unknownKey

def sorted (r : Registry α) : List (Preset α) :=
  (Sorted.ofList Sorted.textLt (Keyed.names r)).filterMap fun name => Keyed.find? name r

end Registry

end Breadboard
