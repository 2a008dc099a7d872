import Breadboard.Part.Basic
import Breadboard.Scattered
import Breadboard.Slot

/-!
**Circuits.**

A circuit is a list of units that stand in the grid, with the slots by which its inputs and its
outputs are reached.  A unit at `pos` with turn `t` fills the cells `pos + t k`, where `k` runs
through the box of its part, so turning a unit never moves the cell it is anchored to.

Slots are values: every side has its own, and a change of one touches no other.  A slot that both
sides share, so that a change of it is seen on either, has no counterpart here.

Main definitions:

* `Element` — a device at a place of the grid, turned;
* `Circuit` — units, input slots and output slots, with the size of the bounding box;
* `Circuit.boundingBox` — the first corner and the size of the box around a list of units;
* `Circuit.build` — the circuit of given units and slots, if its slots are in order;
* `Circuit.ofDevice` — a single device with its default slots.

Main results:

* `Circuit.dangling?_eq_none_iff` — nothing is reported exactly if every index is that of a unit;
* `Circuit.build_eq_ok` — a circuit that was built holds the given units and slots.
-/

set_option autoImplicit false
set_option relaxedAutoImplicit false

namespace Breadboard

/-- A device at a place of the grid, turned. -/
structure Element extends Device where
  /-- The first cell of the unit. -/
  pos : Point
  turn : Turn
  deriving DecidableEq, Inhabited

namespace Element

/-- The two opposite corner cells of a unit, the lower and the upper one. -/
def corners (e : Element) : Except Fault (Point × Point) := do
  let far := e.pos + (← Reading.moved e.turn (e.part.size.map fun v => max (v - 1) 0))
  pure (e.pos.meet far, e.pos.join far)

end Element

/-- Units with the slots by which they are reached. -/
structure Circuit where
  units : List Element
  inputs : List Slot
  outputs : List Slot
  /-- The size of the bounding box, as it was last determined. -/
  bounds : Point

namespace Circuit

def findSlot? (name : String) (slots : List Slot) : Option Slot :=
  slots.find? fun s => s.name == name

def slots (c : Circuit) : Side → List Slot
  | .input => c.inputs
  | .output => c.outputs

/-! ### The bounding box -/

/-- The smaller box around two boxes, each given by its corner cells. -/
def hull (a b : Point × Point) : Point × Point := (a.1.meet b.1, a.2.join b.2)

/-- The first corner and the size of the box around a list of units; both are zero for no units. -/
def boundingBox : List Element → Except Fault (Point × Point)
  | [] => .ok (.origin, .origin)
  | e :: rest => do
      let first ← e.corners
      let box ← rest.foldlM (fun box u => do pure (hull box (← u.corners))) first
      pure (box.1, box.2 - box.1 + .one)

/-! ### Building circuits -/

def isUnit (units : Nat) (i : Int) : Bool := decide (0 ≤ i) && decide (i < units)

/-- The unit index of a slot that is reported if no unit has it.  Of several such indices it is the
one that comes first where the indices of the slot are scattered over a table. -/
def dangling? (slot : Slot) (units : Nat) : Option Int :=
  let ids := slot.ids.values.flatten
  match ids.filter fun i => !isUnit units i with
  | [] => none
  | first :: others =>
      some (((Scattered.order ids).find? fun i => (first :: others).contains i).getD first)

/-- The slots of a side have different names and address only units that exist. -/
def checkSlots (side : Side) (slots : List Slot) (units : Nat) : Except Fault Unit :=
  let names := slots.map Slot.name
  let repeated := Sorted.ofList Sorted.textLt (names.filter fun n => decide (1 < names.count n))
  if repeated.isEmpty then
    slots.forM fun slot => match dangling? slot units with
      | some id => .error (.danglingSlot side slot.name id units)
      | none => .ok ()
  else .error (.duplicateSlots side repeated)

def build (units : List Element) (inputs outputs : List Slot) : Except Fault Circuit := do
  checkSlots .input inputs units.length
  checkSlots .output outputs units.length
  let box ← boundingBox units
  pure ⟨units, inputs, outputs, box.2⟩

/-- The default slot on a side of a single device, if it needs one. -/
def deviceSlots (needed : Bool) : List Slot :=
  if needed then [Slot.point defaultSlot defaultKind 0] else []

def ofDevice (d : Device) : Except Fault Circuit :=
  build [⟨d, .origin, .identity⟩] (deviceSlots d.part.hasInput) (deviceSlots d.part.hasOutput)

/-- The text of a circuit inside a message. -/
def display (c : Circuit) : String :=
  "Scheme(units=" ++ toString c.units.length ++ ", bounds=" ++ c.bounds.display
    ++ ", inputs=" ++ displayTexts (c.inputs.map Slot.name)
    ++ ", outputs=" ++ displayTexts (c.outputs.map Slot.name) ++ ")"

/-- Nothing is reported exactly if every index of the slot is that of a unit. -/
theorem dangling?_eq_none_iff {slot : Slot} {units : Nat} :
    dangling? slot units = none ↔ ∀ i ∈ slot.ids.values.flatten, isUnit units i = true := by
  unfold dangling?
  simp only []
  generalize slot.ids.values.flatten = ids
  split
  · rename_i h
    simpa using List.filter_eq_nil_iff.1 h
  · rename_i first others h
    refine ⟨fun hnone => (Option.some_ne_none _ hnone).elim, fun hall => ?_⟩
    have hmem : first ∈ ids.filter fun i => !isUnit units i := h ▸ List.mem_cons_self
    rw [List.mem_filter] at hmem
    simp [hall first hmem.1] at hmem

/-- A circuit that was built holds the given units and slots, and its size is that of the bounding
box. -/
theorem build_eq_ok {units : List Element} {inputs outputs : List Slot} {c : Circuit}
    (h : build units inputs outputs = .ok c) :
    c.units = units ∧ c.inputs = inputs ∧ c.outputs = outputs
      ∧ (boundingBox units).map Prod.snd = .ok c.bounds := by
  unfold build at h
  obtain ⟨_, _, h⟩ := Fault.bind_eq_ok_iff.1 h
  obtain ⟨_, _, h⟩ := Fault.bind_eq_ok_iff.1 h
  obtain ⟨box, hbox, h⟩ := Fault.bind_eq_ok_iff.1 h
  cases h
  exact ⟨rfl, rfl, rfl, by rw [hbox]; rfl⟩

end Circuit

end Breadboard
