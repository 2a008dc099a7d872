import Breadboard.Fault
import Breadboard.Folder.Location
import Breadboard.Sorted

/-!
**Folders and files.**

The files are held in one list, each under the names on the way to it.  A file holds a text, or
bytes that are no text.

Main definitions:

* `Tree` — the folders and files that are known; the working folder itself is no entry;
* `Tree.find?` — the entry under a way;
* `Tree.walk` — the way that a location leads, with its steps up carried out;
* `Tree.readText`, `Tree.writeText` — the text of a file;
* `Tree.makeFile`, `Tree.rename`, `Tree.discard` — files that are made, renamed and removed;
* `Tree.makeFolder`, `Tree.makeFolders`, `Tree.listFolder` — folders;
* `Tree.paths` — the texts of all entries, sorted.

Main results:

* `Tree.plainLines_of_not_mem` — **a text without carriage returns is read as it was written**.
-/

set_option autoImplicit false
set_option relaxedAutoImplicit false

namespace Breadboard

/-- A folder or a file. -/
inductive Entry where
  | folder
  | file (text : String)
  /-- A file whose bytes are no text. -/
  | binary
  deriving DecidableEq, Inhabited

/-- The folders and files that are known, each under the names on the way to it from the working
folder.  Below a root the way begins with the root, which is an entry of its own. -/
abbrev Tree := List (List String × Entry)

namespace Tree

/-- The entry under a way; the empty way is the working folder. -/
def find? (t : Tree) (way : List String) : Option Entry :=
  if way = [] then some .folder else (List.find? (fun e => e.1 == way) t).map Prod.snd

def insert (way : List String) (entry : Entry) : Tree → Tree
  | [] => [(way, entry)]
  | (w, e) :: rest => if w = way then (w, entry) :: rest else (w, e) :: insert way entry rest

/-- Takes the entry under a way out, and nothing else. -/
def remove (way : List String) (t : Tree) : Tree := t.filter fun e => e.1 != way

/-- Removes the entry under a way, with everything below it. -/
def erase (way : List String) (t : Tree) : Tree := t.filter fun e => !way.isPrefixOf e.1

/-- Why a location leads nowhere. -/
inductive WayFlaw where
  | missing
  | notFolder
  | tooLong
  deriving DecidableEq

/-- The number of bytes that a name can have. -/
def nameLimit : Nat := 255

/-- The number of bytes that the text of a location stays below. -/
def pathLimit : Nat := 4096

/-- The way that names lead from a way, each of them taken inside a folder. -/
def walkFrom (t : Tree) (way : List String) : List String → Except WayFlaw (List String)
  | [] => .ok way
  | name :: rest =>
      match t.find? way with
      | none => .error .missing
      | some .folder =>
          if nameLimit < name.utf8ByteSize then .error .tooLong
          else walkFrom t (if name = ".." then way.dropLast else way ++ [name]) rest
      | some _ => .error .notFolder

/-- The way to the root of a location, which is the working folder for a relative one. -/
def rootWay (l : Location) : List String := if l.root = "" then [] else [l.root]

def walk (t : Tree) (l : Location) : Except Fault (List String) :=
  if l.hasNull then .error .nullInPath
  else if pathLimit ≤ l.display.utf8ByteSize then .error (.nameTooLong l.display)
  else
    match t.walkFrom (rootWay l) l.parts with
    | .ok way => .ok way
    | .error .missing => .error (.fileMissing l.display)
    | .error .notFolder => .error (.notFolder l.display)
    | .error .tooLong => .error (.nameTooLong l.display)

/-- The entry at a location, if there is one.  Only a name that is too long is an error. -/
def entry? (t : Tree) (l : Location) : Except Fault (Option Entry) :=
  match t.walk l with
  | .ok way => .ok (t.find? way)
  | .error (.nameTooLong path) => .error (.nameTooLong path)
  | .error _ => .ok none

def isFolder (t : Tree) (l : Location) : Except Fault Bool := do
  pure (decide ((← t.entry? l) = some .folder))

def isFile (t : Tree) (l : Location) : Except Fault Bool := do
  match ← t.entry? l with
  | some (.file _) => pure true
  | some .binary => pure true
  | _ => pure false

/-! ### Files -/

/-- The characters of a text in which every kind of line end is a line feed: a carriage return is
one, together with the line feed behind it. -/
def plainLines : List Char → List Char
  | [] => []
  | '\r' :: '\n' :: rest => '\n' :: plainLines rest
  | c :: rest => (if c = '\r' then '\n' else c) :: plainLines rest

/-- **A text without carriage returns is read as it was written.** -/
theorem plainLines_of_not_mem {cs : List Char} (h : '\r' ∉ cs) : plainLines cs = cs := by
  fun_induction plainLines cs with
  | case1 => rfl
  | case2 => simp at h
  | case3 c rest _ ih =>
      rw [List.mem_cons, not_or] at h
      rw [if_neg (Ne.symm h.1), ih h.2]

def readText (t : Tree) (l : Location) : Except Fault String := do
  let way ← t.walk l
  match t.find? way with
  | none => throw (.fileMissing l.display)
  | some .folder => throw (.isFolder l.display)
  | some .binary => throw .undecodableText
  | some (.file text) => pure (String.ofList (plainLines text.toList))

/-- Writes a file inside a folder that exists, in the place of the file that is there. -/
def writeEntry (t : Tree) (l : Location) (entry : Entry) : Except Fault Tree := do
  let way ← t.walk l
  if t.find? way = some .folder then throw (.isFolder l.display)
  else pure (t.insert way entry)

def writeText (t : Tree) (l : Location) (text : String) : Except Fault Tree :=
  t.writeEntry l (.file text)

/-- Makes an empty file inside a folder that exists; nothing may be in its place. -/
def makeFile (t : Tree) (l : Location) : Except Fault Tree := do
  let way ← t.walk l
  if (t.find? way).isSome then throw (.fileExists l.display)
  else pure (t.insert way (.file ""))

def rename (t : Tree) (source target : Location) : Except Fault Tree := do
  let sourceWay ← t.walk source
  let targetWay ← t.walk target
  match t.find? sourceWay with
  | none => throw (.fileMissing source.display)
  | some entry =>
      if t.find? targetWay = some .folder then throw (.isFolder target.display)
      else pure ((t.remove sourceWay).insert targetWay entry)

def discard (t : Tree) (l : Location) : Tree :=
  match t.walk l with
  | .ok way => t.remove way
  | .error _ => t

/-- Nothing is known to be at a location. -/
def isFree (t : Tree) (l : Location) : Bool :=
  match t.walk l with
  | .ok way => (t.find? way).isNone
  | .error _ => true

/-! ### Folders -/

/-- Makes a folder inside a folder that exists; nothing may be in its place. -/
def makeFolder (t : Tree) (l : Location) : Except Fault Tree := do
  let way ← t.walk l
  if (t.find? way).isSome then throw (.fileExists l.display)
  else pure (t.insert way .folder)

/-- A change that is made as a whole or not at all. -/
def change (f : Tree → Except Fault Tree) : EStateM Fault Tree Unit := fun t =>
  match f t with
  | .ok t' => .ok () t'
  | .error fault => .error fault t

/-- A folder could not be made, which does not matter if there is one. -/
def unlessFolder (l : Location) (fault : Fault) (t : Tree) : Except Fault Tree := do
  if ← t.isFolder l then pure t else throw fault

/-- Makes a folder unless there is one already. -/
def ensureFolder (l : Location) (t : Tree) : Except Fault Tree :=
  match t.makeFolder l with
  | .ok t' => .ok t'
  | .error fault => unlessFolder l fault t

/-- Makes a folder, and the folders on the way to it that are missing; the names are given from the
last to the first.  What was made before a failure stays. -/
def ensureBackwards (root : String) : List String → EStateM Fault Tree Unit
  | [] => change (ensureFolder ⟨root, []⟩)
  | name :: names => do
      let l : Location := ⟨root, (name :: names).reverse⟩
      match (← get).makeFolder l with
      | .ok t => set t
      | .error (.fileMissing _) => do
          ensureBackwards root names
          change (ensureFolder l)
      | .error fault => change (unlessFolder l fault)

def makeFolders (l : Location) : EStateM Fault Tree Unit :=
  ensureBackwards l.root l.parts.reverse

def listFolder (t : Tree) (l : Location) : Except Fault (List String) := do
  let way ← t.walk l
  match t.find? way with
  | none => throw (.fileMissing l.display)
  | some .folder =>
      pure (Sorted.ofList Sorted.textLt (t.filterMap fun e =>
        if e.1 ≠ [] ∧ e.1.dropLast = way then e.1.getLast? else none))
  | some _ => throw (.notFolder l.display)

/-- Removes the file or folder at a location. -/
def delete (t : Tree) (l : Location) : Except Fault Tree := do
  let way ← t.walk l
  if (t.find? way).isSome then pure (t.erase way) else throw (.fileMissing l.display)

/-- The text of an entry: the names on the way to it, and a separator behind a folder. -/
def pathOf (e : List String × Entry) : String :=
  "/".intercalate e.1 ++ if e.2 = .folder then "/" else ""

def paths (t : Tree) : List String := Sorted.ofList Sorted.textLt (t.map pathOf)

end Tree

end Breadboard
