import Breadboard.Json.Display

/-!
**What can go wrong.**

Every operation that can fail answers with one of these causes.  The wording of a cause stands here
and nowhere else; a cause that is told by its kind alone has an empty text.

Main definitions:

* `Side` — the two sides of a circuit;
* `Fault` — the causes of failure;
* `Fault.message` — their wording.

Main results:

* `Fault.bind_eq_ok_iff`, `Fault.bind_eq_error_iff` — two steps in a row succeed exactly if both do.
-/

set_option autoImplicit false
set_option relaxedAutoImplicit false

namespace Breadboard

/-- The side of a circuit on which a slot stands. -/
inductive Side where
  | input
  | output
  deriving DecidableEq, Inhabited

namespace Side

def name : Side → String
  | input => "input"
  | output => "output"

/-- The name of a side at the beginning of a sentence. -/
def title : Side → String
  | input => "Input"
  | output => "Output"

end Side

/-- Why a part of an assembly has no position. -/
inductive PlacementGap where
  | neverPlaced
  | onlyRotated
  deriving DecidableEq

namespace PlacementGap

def message : PlacementGap → String
  | neverPlaced => "never placed"
  | onlyRotated => "rotated but never placed"

end PlacementGap

/-- Why a name is refused. -/
inductive NameFlaw where
  | empty
  | separator
  deriving DecidableEq

/-- Why the target of a forwarded slot is refused. -/
inductive ForwardFlaw where
  | noScheme
  | noSlot
  | schemeMissing (scheme : String)
  | slotMissing (scheme : String) (side : Side) (slot : String)
  | sectorMissing (slot sector : String)
  deriving DecidableEq

namespace ForwardFlaw

def message : ForwardFlaw → String
  | noScheme => "No scheme name given, expected <scheme>/<slot>[/<sector>]"
  | noSlot => "No slot name given, expected <scheme>/<slot>[/<sector>]"
  | schemeMissing scheme => "Scheme " ++ Quoted.quote scheme ++ " was not added"
  | slotMissing scheme side slot =>
      "Scheme " ++ Quoted.quote scheme ++ " has no " ++ side.name ++ " slot " ++ Quoted.quote slot
  | sectorMissing slot sector =>
      "Slot " ++ Quoted.quote slot ++ " has no sector " ++ Quoted.quote sector

end ForwardFlaw

/-- A step on the way to a value inside a document. -/
inductive DocumentStep where
  | key (name : String)
  | item (index : Nat)
  deriving DecidableEq

/-- Why a value inside a document is not what its model asks for. -/
inductive DocumentFlaw where
  | missing
  | notModel
  | notList
  | notObject
  | notText
  | notInteger
  | unreadableInteger
  | longInteger
  | fractionalInteger
  | infiniteInteger
  | notBoolean
  deriving DecidableEq

/-- A cause of failure. -/
inductive Fault where
  -- reading values
  | tooFewValues (expected got : Nat)
  | tooManyValues (expected : Nat)
  | badInteger (text : String)
  | longInteger (digits : Nat)
  | nanToInteger
  | unprintableInteger
  | zeroDivisor (real : Bool)
  | noSineOfInfinity
  | fractionalChannel
  | outOfRange
  | wrongType
  | wrongShape
  | unknownKey
  | noSuchOperation
  -- points, boxes and turns
  | negativeSize (size : Point)
  | notUnitVector (text : String)
  | notOrthogonal (text : String)
  | reflection (text : String)
  | outsideMap (point size : Point)
  | wrongItemCount (size : Point) (got : Nat)
  | unevenRows
  | unevenItems
  | indexOutOfRange
  | tooFewCoordinates
  | extentTooLarge
  | boxTooLarge
  -- parts
  | badGateMode (text : String)
  | negativeDelay (ticks : Int)
  | emptyBlock (size : Point)
  -- slots
  | mapSizeDiffers (mapSize slotSize : Point)
  | sectorNameTaken (slot sector : String)
  | sectorOutOfBounds (slot sector : String) (pos size slotSize : Point)
  -- circuits
  | duplicateSlots (side : Side) (names : List String)
  | danglingSlot (side : Side) (slot : String) (unit : Int) (units : Nat)
  | noSuchUnit (index : Int) (units : Nat)
  -- assemblies
  | invalidName (name what : String) (flaw : NameFlaw)
  | schemeNameTaken (name : String)
  | slotNameTaken (side : Side) (name : String)
  | forward (side : Side) (name target : String) (flaw : ForwardFlaw)
  | several (faults : List Fault)
  | consumed
  | nothingAdded
  | unplaced (names : List (String × PlacementGap))
  | notPlaced (names : List String)
  | fanOut (inputs outputs : List String) (limit : Int) (overflowing : List (Nat × Nat))
  -- presets
  | unknownParameters (preset : String) (names : List String)
  | badBoolean (parameter value : String)
  | badNumber (parameter kind value : String)
  | duplicatePreset (name : String)
  | badGateName (name : String) (known : List String)
  | badWordSize (text : String)
  -- documents, folders and the command line
  | invalidDocument (details : List (List DocumentStep × DocumentFlaw))
  | unreadableDocument
  | deepDocument (inObject : Bool)
  | undecodableText
  | unencodableText
  | noBlueprint (name : String)
  | noStore (path : String)
  | fileMissing (path : String)
  | fileExists (path : String)
  | notFolder (path : String)
  | isFolder (path : String)
  | nameTooLong (path : String)
  | nullInPath
  | badAssignment (item : String)
  deriving Inhabited

namespace Fault

mutual

/-- The wording of a cause; empty for a cause that is told by its kind alone. -/
def message : Fault → String
  | tooFewValues expected got =>
      "not enough values to unpack (expected " ++ toString expected ++ ", got " ++ toString got
        ++ ")"
  | tooManyValues expected =>
      "too many values to unpack (expected " ++ toString expected ++ ")"
  | badInteger text =>
      "invalid literal for int() with base 10: "
        ++ String.ofList ((Quoted.quote text).toList.take 200)
  | longInteger digits =>
      "Exceeds the limit (4300 digits) for integer string conversion: value has "
        ++ toString digits ++ " digits; use sys.set_int_max_str_digits() to increase the limit"
  | nanToInteger => "cannot convert float NaN to integer"
  | unprintableInteger =>
      "Exceeds the limit (4300 digits) for integer string conversion; "
        ++ "use sys.set_int_max_str_digits() to increase the limit"
  | zeroDivisor real => if real then "float modulo" else "integer modulo by zero"
  | noSineOfInfinity => "math domain error"
  | fractionalChannel => "Unknown format code 'x' for object of type 'float'"
  | outOfRange | wrongType | wrongShape | unknownKey | noSuchOperation => ""
  | negativeSize size => "Bounds must be non-negative, got " ++ size.display
  | notUnitVector text => "Not a unit axis vector: " ++ text
  | notOrthogonal text => "Not an orthogonal integer rotation: " ++ text
  | reflection text => "Matrix is a reflection, not a rotation: " ++ text
  | outsideMap point size =>
      "Point " ++ point.display ++ " is outside Map3D of size " ++ size.display
  | wrongItemCount size got =>
      "Map3D of size " ++ size.display ++ " needs " ++ toString size.volume ++ " items, got "
        ++ toString got
  | unevenRows => "Inconsistent size of Y axis rows in nested data"
  | unevenItems => "Inconsistent size of X axis rows in nested data"
  | indexOutOfRange => "list index out of range"
  | tooFewCoordinates => "tuple index out of range"
  | extentTooLarge => "Maximum allowed dimension exceeded"
  | boxTooLarge =>
      "array is too big; `arr.size * arr.dtype.itemsize` is larger than the maximum possible size."
  | badGateMode text => text ++ " is not a valid GateMode"
  | negativeDelay ticks => "Timer delay cannot be negative, got " ++ toString ticks
  | emptyBlock size => "Block body must be at least 1x1x1, got " ++ size.display
  | mapSizeDiffers mapSize slotSize =>
      "Shape map size " ++ mapSize.display ++ " differs from slot size " ++ slotSize.display
  | sectorNameTaken slot sector =>
      "Cannot add sector " ++ Quoted.quote sector ++ " to slot " ++ Quoted.quote slot ++ ": "
        ++ (if sector == "" then "the empty name is reserved for the whole slot"
          else "the name is already taken")
  | sectorOutOfBounds slot sector pos size slotSize =>
      "Sector " ++ Quoted.quote sector ++ " at " ++ pos.display ++ " of size " ++ size.display
        ++ " does not fit slot " ++ Quoted.quote slot ++ " of size " ++ slotSize.display
  | duplicateSlots side names =>
      "Duplicate " ++ side.name ++ " slot names: " ++ displayTexts names
  | danglingSlot side slot unit units =>
      side.title ++ " slot " ++ Quoted.quote slot ++ " references unit " ++ toString unit
        ++ ", scheme has " ++ toString units
  | noSuchUnit index units =>
      "Unit " ++ toString index ++ " out of range for scheme of " ++ toString units ++ " units"
  | invalidName name what flaw =>
      "Invalid name " ++ Quoted.quote name ++ ": " ++ what ++ match flaw with
        | .empty => " name cannot be empty"
        | .separator => " name cannot contain '/'"
  | schemeNameTaken name => "Scheme name " ++ Quoted.quote name ++ " was already taken"
  | slotNameTaken side name =>
      side.title ++ " slot name " ++ Quoted.quote name ++ " was already taken"
  | forward side name target flaw =>
      "Cannot pass " ++ side.name ++ " " ++ Quoted.quote name ++ " to " ++ Quoted.quote target
        ++ ": " ++ flaw.message
  | several faults =>
      toString faults.length ++ " item(s) failed: " ++ "; ".intercalate (messages faults)
  | consumed => "Combiner was already compiled and cannot be modified or compiled again"
  | nothingAdded => "No scheme was added yet, nothing to place or rotate"
  | unplaced names =>
      toString names.length ++ " scheme(s) have no position: "
        ++ ", ".intercalate (names.map fun n => Quoted.quote n.1 ++ " (" ++ n.2.message ++ ")")
  | notPlaced names => "Positioner returned no placement for: " ++ ", ".intercalate names
  | fanOut inputs outputs limit overflowing =>
      toString overflowing.length ++ " unit(s) exceed the limit of " ++ toString limit
        ++ " outgoing connections. Slots reaching them: inputs " ++ displayTexts inputs
        ++ ", outputs " ++ displayTexts outputs
        ++ ". Split the fan-out through intermediate gates or disable the check."
  | unknownParameters preset names =>
      "Preset " ++ Quoted.quote preset ++ " has no parameter(s) " ++ displayTexts names
  | badBoolean parameter value =>
      "Parameter " ++ Quoted.quote parameter ++ " expects a boolean, got " ++ Quoted.quote value
  | badNumber parameter kind value =>
      "Parameter " ++ Quoted.quote parameter ++ " expects " ++ kind ++ ", got "
        ++ Quoted.quote value
  | duplicatePreset name => "Duplicate preset name: " ++ name
  | badGateName name known =>
      "Unknown gate mode " ++ Quoted.quote name ++ ", expected one of " ++ displayTexts known
  | badWordSize text => "Word size must be positive, got " ++ text
  | deepDocument inObject =>
      "maximum recursion depth exceeded while decoding a JSON "
        ++ (if inObject then "object" else "array") ++ " from a unicode string"
  | invalidDocument _ | unreadableDocument | undecodableText | unencodableText => ""
  | noBlueprint name => "Blueprint " ++ Quoted.quote name ++ " does not exist"
  | noStore path => "Blueprint folder '" ++ path ++ "' does not exist"
  | fileMissing path => "[Errno 2] No such file or directory: " ++ Quoted.quote path
  | fileExists path => "[Errno 17] File exists: " ++ Quoted.quote path
  | notFolder path => "[Errno 20] Not a directory: " ++ Quoted.quote path
  | isFolder path => "[Errno 21] Is a directory: " ++ Quoted.quote path
  | nameTooLong path => "[Errno 36] File name too long: " ++ Quoted.quote path
  | nullInPath => "embedded null byte"
  | badAssignment item => "Expected key=value, got " ++ Quoted.quote item

def messages : List Fault → List String
  | [] => []
  | fault :: rest => message fault :: messages rest

end

@[simp] theorem ok_bind {α β : Type} (a : α) (next : α → Except Fault β) :
    (Except.ok a >>= next) = next a := rfl

@[simp] theorem error_bind {α β : Type} (fault : Fault) (next : α → Except Fault β) :
    (Except.error fault >>= next) = .error fault := rfl

/-- Two steps in a row succeed exactly if both do. -/
theorem bind_eq_ok_iff {α β : Type} {first : Except Fault α} {next : α → Except Fault β} {b : β} :
    (first >>= next) = .ok b ↔ ∃ a, first = .ok a ∧ next a = .ok b := by
  cases first with
  | error fault => simp [bind, Except.bind]
  | ok a => simp [bind, Except.bind]

/-- Two steps in a row fail exactly if the first one does, or the second one behind it. -/
theorem bind_eq_error_iff {α β : Type} {first : Except Fault α} {next : α → Except Fault β}
    {fault : Fault} :
    (first >>= next) = .error fault ↔
      first = .error fault ∨ ∃ a, first = .ok a ∧ next a = .error fault := by
  cases first with
  | error other => simp [bind, Except.bind]
  | ok a => simp [bind, Except.bind]

end Fault

end Breadboard
