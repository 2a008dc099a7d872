import Breadboard.Fault
import Breadboard.Grid.Dense
import Breadboard.Grid.Reading
import Breadboard.Renumbering
import Breadboard.Sorted

/-!
**Slots.**

A slot is a box of points by which a circuit is reached from outside; behind every point stand the
units that the point addresses, by their indices.  Named boxes inside a slot are its sectors.

Main definitions:

* `Slot.getPoint` — the units behind a point, none outside the slot;
* `Slot.getSector?` — a sector by its name; the empty name stands for the whole slot;
* `Slot.bindSector` — declares a sector;
* `Slot.dropUnit`, `Slot.remap` — renumbering after units have been removed.

Main results:

* `Slot.getSector?_wholeSector` — the empty name is the whole slot;
* `Slot.sectors_bindSector` — **a declared sector is new, has a name and fits the slot**.
-/

set_option autoImplicit false
set_option relaxedAutoImplicit false

namespace Breadboard

/-- A box inside a slot. -/
structure Sector where
  pos : Point
  size : Point
  kind : String
  deriving DecidableEq, Inhabited

/-- The name that stands for the whole slot. -/
def wholeSector : String := ""

/-- The slot that a path means if it names none, and the slot of a single unit. -/
def defaultSlot : String := "_"

/-- The kind of the slots of a single unit. -/
def defaultKind : String := "shape"

/-- A box of points with the units behind each of them. -/
structure Slot where
  name : String
  kind : String
  /-- The units behind each point, by their indices. -/
  ids : Dense (List Int)
  /-- The sectors by name, in the order of their declaration. -/
  sectors : Keyed Sector

namespace Slot

def size (s : Slot) : Point := s.ids.size

/-- A slot without sectors over the given units; their box has to be the slot's. -/
def ofMap? (name kind : String) (size : Point) (ids : Dense (List Int)) : Except Fault Slot :=
  if ids.size = size then .ok ⟨name, kind, ids, []⟩ else .error (.mapSizeDiffers ids.size size)

/-- A slot of the given size behind whose points there are no units. -/
def empty (name kind : String) (size : Size) : Slot := ⟨name, kind, .filled size [], []⟩

/-- A slot with one point that addresses one unit. -/
def point (name kind : String) (id : Int) : Slot := ⟨name, kind, .single [id], []⟩

/-- The units behind a point; none outside the slot. -/
def getPoint (s : Slot) (p : Point) : List Int := (s.ids.get? p).getD []

def whole (s : Slot) : Sector := ⟨.origin, s.size, s.kind⟩

def getSector? (s : Slot) (name : String) : Option Sector :=
  if name = wholeSector then some s.whole else Keyed.find? name s.sectors

/-- The condition for a new sector among declared ones of a slot of the given size: its name is not
empty and not in use, and it fits the slot. -/
def checkSector (slotName : String) (slotSize : Point) (sectors : Keyed Sector)
    (name : String) (sector : Sector) : Except Fault Unit :=
  if name = wholeSector ∨ Keyed.has name sectors then .error (.sectorNameTaken slotName name)
  else if Point.boxFits sector.pos sector.size slotSize then .ok ()
  else .error (.sectorOutOfBounds slotName name sector.pos sector.size slotSize)

def bindSector (s : Slot) (name : String) (sector : Sector) : Except Fault Slot := do
  checkSector s.name s.size s.sectors name sector
  pure { s with sectors := s.sectors ++ [(name, sector)] }

/-- All units that the slot addresses, in increasing order. -/
def connectedIds (s : Slot) : List Int := Sorted.ofList Sorted.intLt s.ids.values.flatten

/-! ### Renumbering -/

/-- The slot after a unit was removed from its circuit: references to it are dropped and later
units move by an offset. -/
def dropUnit (s : Slot) (id offset : Int) : Slot :=
  { s with ids := s.ids.map (Renumbering.dropFrom id offset) }

/-- Renumbers the units behind one point. -/
def remapAt (table : List (Option Int)) (p : Point) : EStateM Fault Slot Unit := do
  let s ← get
  match Renumbering.byTable table (s.getPoint p) with
  | .ok ids => set { s with ids := s.ids.modify p fun _ => ids }
  | .error fault => throw fault

/-- Renumbers the units behind all points in order by a table.  A unit that is not in the table
ends the renumbering; the points before it stay renumbered. -/
def remap (table : List (Option Int)) : EStateM Fault Slot Unit := do
  (← get).size.box.forM (remapAt table)

def display (s : Slot) : String :=
  "Slot(" ++ Quoted.quote s.name ++ ", kind=" ++ Quoted.quote s.kind ++ ", size="
    ++ s.size.display ++ ", sectors=" ++ toString s.sectors.length ++ ")"

/-! ### Small laws -/

/-- The empty name is the whole slot. -/
theorem getSector?_wholeSector (s : Slot) : s.getSector? wholeSector = some s.whole := by
  rw [getSector?, if_pos rfl]

/-- **A declared sector is new, has a name and fits the slot.** -/
theorem sectors_bindSector {s t : Slot} {name : String} {sector : Sector}
    (h : s.bindSector name sector = .ok t) :
    t = { s with sectors := s.sectors ++ [(name, sector)] } ∧ name ≠ wholeSector
      ∧ Keyed.has name s.sectors = false ∧ Point.boxFits sector.pos sector.size s.size = true := by
  unfold bindSector checkSector at h
  split at h
  · cases h
  · rename_i hname
    rw [not_or] at hname
    split at h
    · rename_i hfit
      cases h
      exact ⟨rfl, hname.1, by simpa using hname.2, hfit⟩
    · cases h

end Slot

end Breadboard
