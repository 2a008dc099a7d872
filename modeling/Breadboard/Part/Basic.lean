import Breadboard.Fault
import Breadboard.Grid.Reading
import Breadboard.Part.Catalog

/-!
**Parts.**

A part is the immutable kind of a unit: a logic gate, a timer, or an inert block.  Gates and timers
take signals and emit them, blocks do neither.

Main definitions:

* `GateMode` — the functions of a gate, with their numbers in the wire format;
* `Part` — the parts; `Part.timer?` and `Part.block?` build the ones that have conditions;
* `Part.size` — the cells along each axis;
* `Part.hasInput`, `Part.hasOutput` — the part takes signals, and emits signals;
* `Device` — a part with its connections, its colour and its mark;
* `Device.display` — its text inside a message.
-/

set_option autoImplicit false
set_option relaxedAutoImplicit false

namespace Breadboard

/-- The function of a gate. -/
inductive GateMode where
  | and
  | or
  | xor
  | nand
  | nor
  | xnor
  deriving DecidableEq, Inhabited

namespace GateMode

/-- The modes in the order of their numbers. -/
def all : List GateMode := [and, or, xor, nand, nor, xnor]

/-- The number of a mode in the wire format. -/
def number : GateMode → Nat
  | and => 0
  | or => 1
  | xor => 2
  | nand => 3
  | nor => 4
  | xnor => 5

def name : GateMode → String
  | and => "AND"
  | or => "OR"
  | xor => "XOR"
  | nand => "NAND"
  | nor => "NOR"
  | xnor => "XNOR"

def ofName? (s : String) : Option GateMode := all.find? fun m => m.name == s

def ofValue (v : Json) : Except Fault GateMode :=
  match all.find? fun m => Reading.equalsInt v m.number with
  | some m => .ok m
  | none => .error (.badGateMode v.display)

end GateMode

def ticksPerSecond : Int := 40

/-- The kind of a unit. -/
inductive Part where
  | gate (mode : GateMode)
  /-- A delay of whole seconds and some ticks. -/
  | timer (ticks : Nat)
  | block (type : BlockType) (size : Point) (solid : size.all (fun v => decide (1 ≤ v)) = true)
  deriving DecidableEq

namespace Part

instance : Inhabited Part := ⟨gate .and⟩

def timer? (ticks : Int) : Except Fault Part :=
  if ticks < 0 then .error (.negativeDelay ticks) else .ok (timer ticks.toNat)

def block? (type : BlockType) (size : Point) : Except Fault Part :=
  if h : size.all (fun v => decide (1 ≤ v)) = true then .ok (block type size h)
  else .error (.emptyBlock size)

def seconds (ticks : Nat) : Nat := ticks / ticksPerSecond.toNat

/-- The ticks of a delay beyond its whole seconds. -/
def restTicks (ticks : Nat) : Nat := ticks % ticksPerSecond.toNat

def size : Part → Point
  | gate _ => .one
  | timer _ => ⟨1, 1, 2⟩
  | block _ size _ => size

def hasInput : Part → Bool
  | gate _ => true
  | timer _ => true
  | block _ _ _ => false

def hasOutput : Part → Bool
  | gate _ => true
  | timer _ => true
  | block _ _ _ => false

def kindName : Part → String
  | gate _ => "Gate"
  | timer _ => "Timer"
  | block _ _ _ => "BlockBody"

def display : Part → String
  | gate mode => "Gate(" ++ mode.name ++ ")"
  | timer ticks =>
      "Timer(seconds=" ++ toString (seconds ticks) ++ ", ticks=" ++ toString (restTicks ticks)
        ++ ")"
  | block type size _ => "BlockBody(" ++ type.name ++ ", " ++ size.display ++ ")"

/-- Every part has at least one cell along each axis. -/
theorem one_le_size (p : Part) : 1 ≤ p.size.x ∧ 1 ≤ p.size.y ∧ 1 ≤ p.size.z := by
  cases p with
  | gate _ => simp [size, Point.one]
  | timer _ => simp [size]
  | block _ s solid =>
      simp only [Point.all, Bool.and_eq_true, decide_eq_true_eq] at solid
      simp only [size]
      omega

end Part

/-- A part with the state of one unit: the units it sends signals to, by index, an explicit colour,
and the mark that it is needed although nothing depends on it. -/
structure Device where
  part : Part
  wires : List Int
  color : Option String
  pinned : Bool
  deriving DecidableEq, Inhabited

namespace Device

/-- A part without connections, colour and mark. -/
def ofPart (part : Part) : Device := ⟨part, [], none, false⟩

/-- One more connection, after those that are there. -/
def connect (d : Device) (target : Int) : Device := { d with wires := d.wires ++ [target] }

/-- Every connection moved by the same offset. -/
def shiftWires (d : Device) (offset : Int) : Device :=
  { d with wires := d.wires.map fun w => w + offset }

def display (d : Device) : String :=
  "Shape(" ++ d.part.display ++ ", out_conns=" ++ displayInts d.wires ++ ")"

end Device

end Breadboard
