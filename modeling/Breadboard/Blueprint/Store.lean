import Breadboard.Blueprint.Basic
import Breadboard.Folder.Tree
import Breadboard.Json.Reader
import Breadboard.Json.Writer
import Breadboard.Stepwise

/-!
**The blueprint store.**

A store is a folder with one folder for each blueprint, which holds the blueprint and its
description.  Blueprints are looked up by the name in the description; folders whose description is
missing, is no document or does not fit its model are passed over.

Main definitions:

* `Disk` — the files, and the number of folders made so far;
* `Store.openAt` — the store in a folder;
* `Store.find?`, `Store.names` — blueprints by name;
* `Store.save`, `Store.load`, `Store.describe` — a blueprint and its description.
-/

set_option autoImplicit false
set_option relaxedAutoImplicit false

namespace Breadboard

/-- The files, and the number of folders that have been given a fresh name. -/
structure Disk where
  tree : Tree
  created : Nat
  deriving Inhabited

abbrev DiskM := EStateM Fault Disk

namespace Disk

/-- An answer as an action that changes nothing. -/
def answer {α : Type} : Except Fault α → DiskM α
  | .ok a => pure a
  | .error fault => throw fault

def onTree {α : Type} (act : EStateM Fault Tree α) : DiskM α :=
  Stepwise.zoom Disk.tree (fun t d => { d with tree := t }) act

/-- A change of the files that may be refused. -/
def change (f : Tree → Except Fault Tree) : DiskM Unit := onTree (Tree.change f)

/-- The fresh name with the given number. -/
def freshName (number : Nat) : String :=
  "00000000-0000-4000-8000-" ++ String.ofList (Quoted.hex 12 number)

/-- The text of a document as it is written to a file. -/
def documentText (document : Json) : Except Fault String :=
  match document.writeFlaw? .unicode with
  | none => .ok (document.write .unicode)
  | some .unpairedUnit => .error .unencodableText
  | some .longInteger => .error .unprintableInteger

/-- Writes a document as a file, which is first filled at another location, so that it is never seen
half-written.  If that fails, nothing stays at the other location. -/
def writeThrough (temporary l : Location) (document : Json) : DiskM Unit := do
  change fun t => t.makeFile temporary
  try
    let text ← answer (documentText document)
    change fun t => t.writeText temporary text
    change fun t => t.rename temporary l
  catch fault =>
    change fun t => .ok (t.discard temporary)
    throw fault

/-- The location of the temporary file with the given number, beside the file that is written. -/
def temporary (l : Location) (number : Nat) : Location :=
  l.parent.child ("." ++ l.name ++ "." ++ String.ofList (Quoted.hex 8 number) ++ ".tmp")

/-- The first location for a temporary file that is free. -/
def freeTemporary (t : Tree) (l : Location) : Location :=
  (((List.range (t.length + 1)).map (temporary l)).find? t.isFree).getD (temporary l 0)

/-- Writes a document as a file.  A document that cannot be written leaves the file as it is. -/
def writeDocument (l : Location) (document : Json) : DiskM Unit := do
  writeThrough (freeTemporary (← get).tree l) l document

/-- The document in a text; `none` if the text is no document. -/
def document? (text : String) : Except Fault (Option Json) :=
  match Json.read text with
  | .ok document => .ok (some document)
  | .error .malformed => .ok none
  | .error (.longInteger digits) => .error (.longInteger digits)
  | .error (.tooDeep inObject) => .error (.deepDocument inObject)

end Disk

/-- A folder of blueprints. -/
structure Store where
  folder : Location
  deriving DecidableEq, Inhabited

namespace Store

/-- The file of a blueprint in its folder. -/
def blueprintFile : String := "blueprint.json"

/-- The file of a description in its folder. -/
def descriptionFile : String := "description.json"

def openAt (folder : String) (create : Bool) : DiskM Store := do
  let l := Location.read folder
  if create then Disk.onTree (Tree.makeFolders l)
  if ← Disk.answer ((← get).tree.isFolder l) then pure ⟨l⟩ else throw (.noStore l.display)

/-- The description in a folder, if there is one that can be read.  Bytes that are no text are not
passed over. -/
def readDescription (t : Tree) (folder : Location) : Except Fault (Option Description) := do
  let l := folder.child descriptionFile
  if ← t.isFile l then
    let text ← t.readText l
    pure ((← Disk.document? text).bind fun document => (Description.check document).toOption)
  else pure none

/-- The description of a blueprint in the store; a file is none. -/
def descriptionIn (t : Tree) (entry : Location) : Except Fault (Option Description) := do
  if ← t.isFolder entry then readDescription t entry else pure none

/-- The files and folders of a store, sorted. -/
def entries (s : Store) (t : Tree) : Except Fault (List Location) := do
  pure ((← t.listFolder s.folder).map s.folder.child)

/-- The folders of a store with their descriptions, sorted; folders without a readable description
are left out. -/
def descriptions (s : Store) (t : Tree) : Except Fault (List (Location × Description)) := do
  let found ← (← s.entries t).mapM fun entry => do
    pure ((← descriptionIn t entry).map fun d => (entry, d))
  pure (found.filterMap id)

def names (s : Store) (t : Tree) : Except Fault (List String) := do
  pure ((← s.descriptions t).map fun e => e.2.name)

/-- The first folder whose description has a name, tried one by one. -/
def findAmong (t : Tree) (name : String) : List Location →
    Except Fault (Option (Location × Description))
  | [] => .ok none
  | entry :: rest => do
      match ← descriptionIn t entry with
      | some d => if d.name = name then pure (some (entry, d)) else findAmong t name rest
      | none => findAmong t name rest

def find? (s : Store) (t : Tree) (name : String) :
    Except Fault (Option (Location × Description)) := do
  findAmong t name (← s.entries t)

/-- Writes a blueprint and its description into its folder. -/
def writeBoth (folder : Location) (document : Json) (description : Description) : DiskM Unit := do
  Disk.writeDocument (folder.child blueprintFile) document
  Disk.writeDocument (folder.child descriptionFile) description.document

/-- Saves a document under a name.  A blueprint that has the name already is replaced and keeps its
text, unless that is not wanted; one with a new name gets a folder with the fresh name.  The answer
tells whether the document was saved. -/
def saveIn (s : Store) (fresh name : String) (document : Json) (overwrite : Bool) : DiskM Bool := do
  match ← Disk.answer (s.find? (← get).tree name) with
  | some (folder, previous) =>
      if overwrite then
        writeBoth folder document (.of previous.text folder.name name)
        pure true
      else pure false
  | none =>
      modify fun d => { d with created := d.created + 1 }
      let folder := s.folder.child fresh
      Disk.onTree (Tree.makeFolders folder)
      writeBoth folder document (.of Description.noText folder.name name)
      pure true

def save (s : Store) (name : String) (document : Json) (overwrite : Bool) : DiskM Bool := do
  s.saveIn (Disk.freshName ((← get).created + 1)) name document overwrite

def load (s : Store) (t : Tree) (name : String) : Except Fault Blueprint := do
  match ← s.find? t name with
  | none => throw (.noBlueprint name)
  | some (folder, _) =>
      let text ← t.readText (folder.child blueprintFile)
      match ← Disk.document? text with
      | none => throw .unreadableDocument
      | some document => (Blueprint.check document).orFault

def describe (s : Store) (name text : String) : DiskM Unit := do
  match ← Disk.answer (s.find? (← get).tree name) with
  | none => throw (.noBlueprint name)
  | some (folder, _) =>
      Disk.writeDocument (folder.child descriptionFile)
        (Description.of text folder.name name).document

end Store

end Breadboard
