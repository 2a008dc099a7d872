import Breadboard.Blueprint.Check
import Breadboard.Circuit.Document

/-!
**Blueprints and their descriptions.**

A blueprint is the document of a circuit: bodies with the records of their units, and the revision
of the format.  A description names a blueprint and says where it is kept.

Main definitions:

* `Blueprint`, `Description` — the two documents;
* `Blueprint.check`, `Description.check` — they are read from documents;
* `Blueprint.document`, `Description.document` — they are written as documents;
* `Circuit.blueprint` — the blueprint of a circuit.
-/

set_option autoImplicit false
set_option relaxedAutoImplicit false

namespace Breadboard

/-- The document of a circuit. -/
structure Blueprint where
  bodies : List (List Json)
  version : Int

namespace Blueprint

/-- The revision of the format that the game understands. -/
def currentVersion : Int := 4

def ofRecords (records : List Json) : Blueprint := ⟨[records], currentVersion⟩

def unitCount (b : Blueprint) : Nat := b.bodies.flatten.length

def document (b : Blueprint) : Json :=
  .obj [("bodies", .arr (b.bodies.map fun records => .obj [("childs", .arr records)])),
    ("version", .int b.version)]

def checkRecord : Json → Checked Json
  | .obj entries => .ok (.obj entries)
  | _ => Checked.flaw .notObject

def checkRecords : Json → Checked (List Json)
  | .arr values => Checked.items checkRecord values
  | _ => Checked.flaw .notList

def checkBody (v : Json) : Checked (List Json) := do
  Checked.optional checkRecords [] "childs" (← Checked.fields v)

def checkBodies : Json → Checked (List (List Json))
  | .arr values => Checked.items checkBody values
  | _ => Checked.flaw .notList

def check (v : Json) : Checked Blueprint := do
  let entries ← Checked.fields v
  Checked.map₂ Blueprint.mk (Checked.optional checkBodies [] "bodies" entries)
    (Checked.optional Checked.integer currentVersion "version" entries)

/-- A blueprint with one body, whose records a document holds. -/
def checkOneBody (records : Json) : Checked Blueprint := do
  pure (ofRecords (← checkBody (.obj [("childs", records)])))

end Blueprint

/-- What a blueprint is called and where it is kept. -/
structure Description where
  text : String
  localId : String
  name : String
  type : String
  version : Int
  deriving DecidableEq, Inhabited

namespace Description

/-- The text of a blueprint that was given none. -/
def noText : String := "#\x7bSTEAM_WORKSHOP_NO_DESCRIPTION\x7d"

/-- The description of a blueprint kept under the given identifier. -/
def of (text localId name : String) : Description := ⟨text, localId, name, "Blueprint", 0⟩

def document (d : Description) : Json :=
  .obj [("description", .str d.text), ("localId", .str d.localId), ("name", .str d.name),
    ("type", .str d.type), ("version", .int d.version)]

def check (v : Json) : Checked Description := do
  let entries ← Checked.fields v
  let head := Checked.map₂ (fun text localId name => Description.mk text localId name)
    (Checked.optional Checked.text noText "description" entries)
    (Checked.required Checked.text "localId" ["local_id"] entries)
  let named := Checked.map₂ (fun f name => f name) head
    (Checked.required Checked.text "name" [] entries)
  let typed := Checked.map₂ (fun f type => f type) named
    (Checked.optional Checked.text "Blueprint" "type" entries)
  Checked.map₂ (fun f version => f version) typed
    (Checked.optional Checked.integer 0 "version" entries)

end Description

def Circuit.blueprint (c : Circuit) (palette : Palette) : Except Fault Blueprint := do
  pure (.ofRecords (← c.records palette))

end Breadboard
