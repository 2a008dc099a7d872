/-!
**Locations of files and folders.**

A location is a root, which is empty for a relative location, and the names on the way.  Repeated
separators and steps that stay where they are mean nothing; a step up is kept.

Main definitions:

* `Location.read` — the location that a text denotes;
* `Location.display` — its shortest text;
* `Location.child`, `Location.parent` — one step down, and the last step taken back.

Main results:

* `Location.parent_child` — **a step down is taken back by the parent**.
-/

set_option autoImplicit false
set_option relaxedAutoImplicit false

namespace Breadboard

/-- The way to a file or folder. -/
structure Location where
  /-- The separators that an absolute location begins with; empty for a relative one. -/
  root : String
  parts : List String
  deriving DecidableEq, Inhabited

namespace Location

def splitAll : List Char → List (List Char)
  | [] => [[]]
  | c :: rest =>
      match c, splitAll rest with
      | '/', pieces => [] :: pieces
      | c, [] => [[c]]
      | c, piece :: pieces => (c :: piece) :: pieces

/-- The root of a location: two separators in front are kept, any other number counts as one. -/
def rootOf (cs : List Char) : String :=
  match (cs.takeWhile fun c => c == '/').length with
  | 0 => ""
  | 2 => "//"
  | _ => "/"

def read (s : String) : Location :=
  let names := (splitAll s.toList).map String.ofList
  ⟨rootOf s.toList, names.filter fun n => n != "" && n != "."⟩

def display (l : Location) : String :=
  if l.root = "" ∧ l.parts = [] then "." else l.root ++ "/".intercalate l.parts

def child (l : Location) (name : String) : Location := { l with parts := l.parts ++ [name] }

/-- The last step taken back; a location without steps is its own parent. -/
def parent (l : Location) : Location := { l with parts := l.parts.dropLast }

def name (l : Location) : String := l.parts.getLast?.getD ""

/-- The text of the location holds the null character, which no name of a file can hold. -/
def hasNull (l : Location) : Bool := l.parts.any fun n => n.toList.contains '\x00'

/-- **A step down is taken back by the parent.** -/
@[simp] theorem parent_child (l : Location) (name : String) : (l.child name).parent = l := by
  simp [parent, child]

/-- The step down is the name. -/
@[simp] theorem name_child (l : Location) (name : String) : (l.child name).name = name := by
  simp [Location.name, child]

end Location

end Breadboard
