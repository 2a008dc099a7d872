import Breadboard.Preset.Design

/-!
**Arithmetic circuits.**

Words are slots of size `(n, 1, 1)` with bit `x` at `(x, 0, 0)`, the lowest bit first.

Main definitions:

* `Arithmetic.adderSection` — a full adder for one bit;
* `Arithmetic.adder` — a chain of full adders;
* `Arithmetic.adderCompact` — an adder of five gates per bit, with carry in and carry out;
* `Arithmetic.inverter` — the negation in two's complement.
-/

set_option autoImplicit false
set_option relaxedAutoImplicit false

namespace Breadboard

namespace Arithmetic

/-- A single gate with its default slots. -/
def gate (mode : GateMode) : Except Fault Circuit := Circuit.ofDevice (.ofPart (.gate mode))

def row (bits : Nat) (mode : GateMode) (turn : Turn) : Except Fault Circuit :=
  Circuit.gateCube (SlotPlan.wordSize bits) mode turn

/-- A quarter turn that lays a row along the `y` axis. -/
def laid : Turn := .ofQuarters 0 0 1

def adderSection (config : CompileConfig) : Except Fault (Circuit × List Notice) := do
  let or ← gate .or
  let and ← gate .and
  let xor ← gate .xor
  let assembly := Assembly.ofPlaced config
    [⟨"a", or, ⟨0, 0, 0⟩, .facing .negX⟩,
     ⟨"b", or, ⟨0, 0, 1⟩, .facing .negX⟩,
     ⟨"_", or, ⟨2, 0, 1⟩, .identity⟩,
     ⟨"and_1", and, ⟨1, 0, 0⟩, .identity⟩,
     ⟨"and_2", and, ⟨1, 0, 1⟩, .identity⟩,
     ⟨"and_3", and, ⟨2, 0, 0⟩, .identity⟩,
     ⟨"res", xor, ⟨3, 0, 0⟩, .facing .posX⟩]
    [.straight "a" "res", .straight "b" "res", .straight "_" "res",
     .straight "a" "and_1", .straight "a" "and_2",
     .straight "b" "and_2", .straight "b" "and_3",
     .straight "_" "and_3", .straight "_" "and_1"]
    [.bit "a" ["a"], .bit "b" ["b"], .bit "_" ["_"]]
    [.bit "_" ["and_1", "and_2", "and_3"], .bit "res" ["res"]]
  assembly.linkFor "adder_section"

/-- The sum of the words `a` and `b`, without the carry out of the highest bit. -/
def adder (config : CompileConfig) (bits : Nat) : Except Fault (Circuit × List Notice) := do
  let (part, _) ← adderSection config
  let assembly := Assembly.ofPlaced config
    ((List.range bits).map fun (i : Nat) => ⟨toString i, part, ⟨0, i, 0⟩, .identity⟩)
    ((List.range (bits - 1)).map fun i => .straight (toString i) (toString (i + 1)))
    [.wordByBit "a" bits fun x => toString x ++ "/a",
     .wordByBit "b" bits fun x => toString x ++ "/b"]
    [.wordByBit "_" bits fun x => toString x ++ "/res"]
  assembly.linkFor "adder"

/-- The sum of the words `a` and `b` and of `carry`, with the carry out of the highest bit, whose
number is given as a text.  The inputs `a` and `b` feed AND gates directly, so a single gate has to
drive each of their bits. -/
def adderCompact (config : CompileConfig) (bits : Nat) (top : String) :
    Except Fault (Circuit × List Notice) := do
  let carry ← row bits .or .identity
  let and ← row bits .and .identity
  let res ← row bits .xor (.facing .negY)
  let assembly := Assembly.ofPlaced config
    [⟨"carry", carry, ⟨1, 0, 1⟩, laid⟩,
     ⟨"and_1", and, ⟨0, 0, 0⟩, laid⟩,
     ⟨"and_2", and, ⟨0, 0, 1⟩, laid⟩,
     ⟨"and_3", and, ⟨1, 0, 0⟩, laid⟩,
     ⟨"res", res, ⟨2, 0, 0⟩, laid⟩]
    [.straight "carry" "res", .straight "carry" "and_3", .straight "carry" "and_1",
     .carry "and_1" "carry", .carry "and_2" "carry", .carry "and_3" "carry"]
    [.word "a" bits ["and_1", "and_2", "res"], .word "b" bits ["and_2", "and_3", "res"],
     .bit "carry" ["carry"]]
    [.word "_" bits ["res"],
     .bit "carry" (["and_1", "and_2", "and_3"].map fun name => name ++ "/_/" ++ top ++ "_0_0")]
  assembly.linkFor "adder_compact"

def inverter (config : CompileConfig) (bits : Nat) : Except Fault (Circuit × List Notice) := do
  let one ← gate .nor
  let never ← gate .and
  let or ← row bits .or (.facing .posY)
  let nor ← row bits .nor (.facing .posZ)
  let carry ← row bits .and (.facing .posZ)
  let out ← row bits .xor (.facing .negY)
  let assembly := Assembly.ofPlaced config
    [⟨"const_signal", one, ⟨2, -1, 0⟩, .identity⟩,
     ⟨"const_signal_start", never, ⟨1, -1, 0⟩, .identity⟩,
     ⟨"or", or, ⟨0, 0, 0⟩, laid⟩,
     ⟨"nor", nor, ⟨1, 0, 0⟩, laid⟩,
     ⟨"carry", carry, ⟨2, 0, 0⟩, laid⟩,
     ⟨"out", out, ⟨3, 0, 0⟩, laid⟩]
    [.straight "const_signal_start" "const_signal",
     .straight "const_signal" "carry", .straight "const_signal" "out",
     .straight "or" "nor", .straight "nor" "out", .straight "nor" "carry",
     .carry "carry" "carry", .carry "carry" "out"]
    [.word "_" bits ["or"]]
    [.word "_" bits ["out"]]
  assembly.linkFor "inverter"

end Arithmetic

end Breadboard
