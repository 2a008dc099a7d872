import Breadboard.Command.Run

/-!
**The command line.**

The files that a line can touch are read before it is carried out, and those that it changed are
written afterwards.  Everything in between is `Command.run`.

Main definitions:

* `Folder.load` — the files on the way to a location, and those of a store that stands there;
* `Folder.store` — writes what was changed;
* `main` — carries out the line of the program.
-/

set_option autoImplicit false
set_option relaxedAutoImplicit false

namespace Breadboard

namespace Folder

/-- The path to an entry. -/
def pathTo : List String → String
  | [] => "."
  | first :: rest =>
      if first.startsWith "/" then first ++ "/".intercalate rest
      else "/".intercalate (first :: rest)

/-- The names in a folder; none if there is no such folder. -/
def namesIn? (path : String) : IO (Option (List String)) := do
  try
    let found ← (← IO.FS.realPath path).readDir
    pure (some (found.toList.map fun e => e.fileName))
  catch _ => pure none

/-- The folder or file at a path, if there is one. -/
def entryAt? (path : String) : IO (Option Entry) := do
  if (← namesIn? path).isSome then pure (some .folder)
  else
    try
      let bytes ← IO.FS.readBinFile path
      match String.fromUTF8? bytes with
      | some text => pure (some (.file text))
      | none => pure (some .binary)
    catch _ => pure none

/-- The tree with the entry that is found under a way. -/
def see (t : Tree) (way : List String) : IO Tree := do
  match ← entryAt? (pathTo way) with
  | some entry => pure (t.insert way entry)
  | none => pure t

/-- The tree with the entries that are found one and two steps below a folder. -/
def seeBelow (t : Tree) (way : List String) : IO Tree := do
  let mut t := t
  for name in ((← namesIn? (pathTo way)).getD []) do
    t ← see t (way ++ [name])
    for inner in [Store.blueprintFile, Store.descriptionFile] do
      t ← see t (way ++ [name, inner])
  pure t

/-- The tree with the entries that are found on the way to a location and below it. -/
def load (t : Tree) (l : Location) : IO Tree := do
  let root := Tree.rootWay l
  let mut t := t
  for k in List.range (l.parts.length + 1) do
    let way := root ++ l.parts.take k
    if way ≠ [] then t ← see t way
  seeBelow t (root ++ l.parts)

def store (before after : Tree) : IO Unit := do
  for (way, entry) in after do
    if before.find? way ≠ some entry then
      match entry with
      | .folder => IO.FS.createDir (pathTo way)
      | .file text => IO.FS.writeFile (pathTo way) text
      | .binary => pure ()

end Folder

namespace Command

/-- The variables that the settings are read from, in the spellings that are in use. -/
def variableNames : List String :=
  let names := ["smlogic_env", "smlogic_log_level", "smlogic_blueprints_dir",
    "smlogic_max_connections", "smlogic_check_overflow"]
  names ++ names.map fun name => String.ofList (name.toList.map Char.toUpper)

def environment : IO (List (String × String)) := do
  let found ← variableNames.mapM fun name => do
    pure ((← IO.getEnv name).map fun value => (name, value))
  pure (found.filterMap id)

def locations (settings : Settings) (line : List String) : List Location :=
  match Command.read line with
  | .ok (.build a) =>
      let folder := given a.blueprints settings.blueprintsDir
      ([given a.out "", folder].filter fun path => path ≠ "").map Location.read
  | _ => []

def usage : String :=
  "usage: smlogic list\n       smlogic build PRESET [--param KEY=VALUE] [--name NAME] [--out FILE]"
    ++ " [--remove-unused] [--blueprints FOLDER] [--keep-existing]"

/-- Prints what a command leaves, and answers with the exit code. -/
def announce : Outcome → IO UInt32
  | .ended 0 => do
      IO.println usage
      pure 0
  | .ended code => do
      IO.eprintln usage
      pure (UInt32.ofNat code)
  | .finished report => do
      report.out.forM fun text => IO.println text
      report.err.forM fun text => IO.eprintln text
      report.notices.forM fun notice => IO.eprintln notice.line
      pure (UInt32.ofNat report.code)
  | .failed fault out notices => do
      out.forM fun text => IO.println text
      notices.forM fun notice => IO.eprintln notice.line
      IO.eprintln ("error: the line cannot be carried out. " ++ fault.message)
      pure 1

/-- A line is not ended by an error of the program. -/
def isFinished : Outcome → Bool
  | .failed .. => false
  | .ended _ | .finished _ => true

/-- Carries out a line under given settings.  It is carried out twice: the first time only to see
how long it takes. -/
def carryOut (settings : Settings) (line : List String) : IO UInt32 := do
  let tree ← (locations settings line).foldlM Folder.load []
  let disk : Disk := ⟨tree, ← IO.rand 0 (281474976710654)⟩
  let start ← IO.monoMsNow
  let tried := run settings .standard 0 line disk
  let done ← if isFinished tried.1 then IO.monoMsNow else pure start
  let elapsed := done - start
  let (outcome, disk) := run settings .standard elapsed line disk
  Folder.store tree disk.tree
  announce outcome

end Command

end Breadboard

def main (line : List String) : IO UInt32 := do
  match Breadboard.Settings.read (← Breadboard.Command.environment) with
  | .ok settings => Breadboard.Command.carryOut settings line
  | .error _ => do
      IO.eprintln "error: a setting has the wrong form"
      pure 1
