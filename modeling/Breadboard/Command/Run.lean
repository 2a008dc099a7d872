import Breadboard.Blueprint.Store
import Breadboard.Circuit.Removal
import Breadboard.Command.Arguments
import Breadboard.Preset.Catalog
import Breadboard.Settings

/-!
**Carrying out commands.**

A command prints lines, changes files and ends with an exit code.  What was printed and written
before a failure stays.

Main definitions:

* `Session` — the files, the printed lines and the notices so far;
* `Report` — what a command leaves;
* `Command.listLines` — the presets, one in a line;
* `Command.buildSteps` — a preset is built, shown, written and saved;
* `Command.run` — carries out a line.
-/

set_option autoImplicit false
set_option relaxedAutoImplicit false

namespace Breadboard

/-- A command while it is carried out. -/
structure Session where
  disk : Disk
  out : List String
  notices : List Notice

abbrev SessionM := EStateM Fault Session

/-- What a command leaves. -/
structure Report where
  code : Nat
  out : List String
  err : List String
  notices : List Notice

/-- How a line ends. -/
inductive Outcome where
  /-- It ends the program while it is read. -/
  | ended (code : Nat)
  | finished (report : Report)
  /-- It fails with a cause that no command reports. -/
  | failed (fault : Fault) (out : List String) (notices : List Notice)

namespace Session

/-- An answer as an action that changes nothing. -/
def answer {α : Type} : Except Fault α → SessionM α
  | .ok a => pure a
  | .error fault => throw fault

def print (line : String) : SessionM Unit := modify fun s => { s with out := s.out ++ [line] }

def note (notices : List Notice) : SessionM Unit :=
  modify fun s => { s with notices := s.notices ++ notices }

/-- An action on the files. -/
def onDisk {α : Type} (act : DiskM α) : SessionM α :=
  Stepwise.zoom Session.disk (fun d s => { s with disk := d }) act

end Session

/-- A failure that a command reports; any other is an error of the program. -/
def Fault.isReported : Fault → Bool
  | .wrongType | .outOfRange | .unknownKey | .noSuchOperation | .indexOutOfRange => false
  | .outsideMap .. | .noSuchUnit .. | .nothingAdded | .noBlueprint _ => false
  | .zeroDivisor _ | .tooFewCoordinates | .deepDocument _ => false
  | _ => true

namespace Command

/-- A text filled up with spaces to a width. -/
def pad (width : Nat) (s : String) : String :=
  s ++ String.ofList (List.replicate (width - s.length) ' ')

/-! ### Listing the presets -/

def parameterText (p : String × Json) : String :=
  p.1 ++ "=" ++ match p.2 with
    | .str s => s
    | v => v.display

def presetLine {α : Type} (p : Preset α) : String :=
  pad 16 p.name ++ " " ++ pad 28 (", ".intercalate (p.params.map parameterText)) ++ " "
    ++ p.description

def listLines : List String := (Registry.sorted Preset.catalog).map presetLine

/-! ### Building a preset -/

/-- The parameters that words of the form `key=value` give; the last value of a key counts. -/
def readParams (items : List (Option String)) : Except Fault (Keyed Json) :=
  items.foldlM (fun params item =>
    match item with
    | none => .error .noSuchOperation
    | some item =>
        match Word.splitEquals item with
        | (key, some value) =>
            if key = "" then .error (.badAssignment item)
            else .ok (Keyed.insert key (.str value) params)
        | (_, none) => .error (.badAssignment item)) []

def slotLine (side : Side) (s : Slot) : String :=
  "  " ++ pad 6 side.name ++ " " ++ pad 10 (Quoted.quote s.name) ++ " kind=" ++ s.kind ++ " size="
    ++ s.size.display

/-- The lines that show a circuit, built within some milliseconds. -/
def summary (name : String) (c : Circuit) (elapsed : Nat) : List String :=
  (name ++ ": " ++ toString c.units.length ++ " units, bounds " ++ c.bounds.display ++ " ("
      ++ toString elapsed ++ "ms)")
    :: (c.inputs.map (slotLine .input) ++ c.outputs.map (slotLine .output))

/-- A circuit without the units that nothing depends on. -/
def pruned (c : Circuit) : Except Fault Circuit :=
  match Circuit.removeUnused c with
  | .ok _ c' => .ok c'
  | .error fault _ => .error fault

/-- The text of an option, if it is not empty. -/
def given (option : Option String) (otherwise : String) : String :=
  match option with
  | some s => if s = "" then otherwise else s
  | none => otherwise

/-- Writes a document to a file, in folders that are made if they are missing. -/
def writeOut (path : String) (document : Json) : SessionM Unit := do
  let l := Location.read path
  Session.onDisk (Disk.onTree (Tree.makeFolders l.parent))
  Session.onDisk (Disk.change fun t => t.writeText l (document.write .ascii))
  Session.print ("Wrote " ++ l.display)

def saveIn (folder name : String) (document : Json) (overwrite : Bool) : SessionM Unit := do
  let store ← Session.onDisk (Store.openAt folder false)
  if ← Session.onDisk (store.save name document overwrite) then
    Session.print ("Saved blueprint " ++ Quoted.quote name ++ " to " ++ store.folder.display)
  else
    Session.print ("Blueprint " ++ Quoted.quote name ++ " already exists, left untouched")

def buildSteps (settings : Settings) (palette : Palette) (elapsed : Nat) (preset : Preset Recipe)
    (a : BuildArguments) : SessionM Unit := do
  let params ← Session.answer (readParams a.params)
  let recipe ← Session.answer (preset.build params)
  let (built, notices) ← Session.answer (recipe settings.compileConfig)
  Session.note notices
  let circuit ← if a.removeUnused then Session.answer (pruned built) else pure built
  (summary preset.name circuit elapsed).forM Session.print
  let blueprint ← Session.answer (circuit.blueprint palette)
  let path := given a.out ""
  if path ≠ "" then writeOut path blueprint.document
  let folder := given a.blueprints settings.blueprintsDir
  if folder ≠ "" then
    saveIn folder (given a.name preset.name) blueprint.document (!a.keepExisting)

/-- How the build command ends, with the files it leaves. -/
def runBuild (settings : Settings) (palette : Palette) (elapsed : Nat) (a : BuildArguments)
    (disk : Disk) : Outcome × Disk :=
  match Registry.get Preset.catalog a.preset with
  | .error _ =>
      let refusal := "Unknown preset " ++ Quoted.quote a.preset ++ ", see 'smlogic list'"
      (.finished ⟨2, [], [refusal], []⟩, disk)
  | .ok preset =>
      match buildSteps settings palette elapsed preset a ⟨disk, [], []⟩ with
      | .ok _ s => (.finished ⟨0, s.out, [], s.notices⟩, s.disk)
      | .error fault s =>
          if fault.isReported then
            (.finished ⟨1, s.out, [], s.notices ++ [.commandFailed "build" fault]⟩, s.disk)
          else (.failed fault s.out s.notices, s.disk)

/-- Carries out a line; the files are those that it leaves. -/
def run (settings : Settings) (palette : Palette) (elapsed : Nat) (line : List String)
    (disk : Disk) : Outcome × Disk :=
  match Command.read line with
  | .error code => (.ended code, disk)
  | .ok .list => (.finished ⟨0, listLines, [], []⟩, disk)
  | .ok (.build a) => runBuild settings palette elapsed a disk

end Command

end Breadboard
