import Breadboard.Json.Access
import Breadboard.Part.Basic

/-!
**Devices in drafts.**

A device is a gate by its mode, a timer by its delay, or a block by its type and size, together with
its connections, its colour and its mark.

Main definitions:

* `Draft.part?` — the part of a device;
* `Draft.device?`, `Draft.device` — the device, if the draft describes one.
-/

set_option autoImplicit false
set_option relaxedAutoImplicit false

namespace Breadboard

namespace Draft

/-- The mode of a gate, by its name or by its number. -/
def gateMode (v : Json) : Except Fault GateMode :=
  match v with
  | .str name =>
      match GateMode.ofName? name with
      | some mode => .ok mode
      | none => .error .unknownKey
  | number => GateMode.ofValue number

def amount (v : Json) : Except Fault Int :=
  match v with
  | .int _ | .bool _ | .float _ => .ok v.whole
  | .null | .str _ | .arr _ | .obj _ => .error .wrongType

/-- The timer whose delay is given in seconds and ticks.  A negative delay that has too many digits
to be written is reported as such. -/
def timerOfTime : List Json → Except Fault Part
  | [seconds, ticks] => do
      let total := (← amount seconds) * ticksPerSecond + (← amount ticks)
      if total < 0 ∧ !Numeral.isWritable total then throw .unprintableInteger
      else Part.timer? total
  | _ => .error .wrongType

/-- The block of the given type, of a single cell unless a size is given. -/
def block (name : String) (size : Option Json) : Except Fault Part :=
  match BlockType.ofName? name with
  | none => .error .unknownKey
  | some type => do
      let extents ← match size with
        | some size => do pure (← Reading.size size).extents
        | none => pure .one
      Part.block? type extents

def part? (v : Json) : Except Fault (Option Part) :=
  match v.field? "gate", v.field? "timer", v.field? "timer_time", v.field? "block" with
  | some mode, _, _, _ => do pure (some (.gate (← gateMode mode)))
  | none, some ticks, _, _ => do pure (some (← Part.timer? (← amount ticks)))
  | none, none, some time, _ => do pure (some (← timerOfTime time.items))
  | none, none, none, some name => do pure (some (← block name.text (v.field? "size")))
  | none, none, none, none => .ok none

def device? (v : Json) : Except Fault (Option Device) := do
  pure ((← part? v).map fun part =>
    ⟨part, (v.get "conns").wholes, v.textAt? "color", (v.get "forced").isTrue⟩)

/-- A device is needed. -/
def needed : Option Device → Except Fault Device
  | some d => .ok d
  | none => .error .wrongType

def device (v : Json) : Except Fault Device := do needed (← device? v)

end Draft

end Breadboard
