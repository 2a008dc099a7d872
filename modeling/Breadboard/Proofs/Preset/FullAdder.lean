import Breadboard.Preset.Catalog
import Breadboard.Proofs.Signal.Sources

/-!
**The full adder for one bit.**

The carry out of a place is a majority, which three gates compute.  The chain of full adders is made
of one section of seven gates for each bit.

Main definitions:

* `Arithmetic.IsSection` — a full adder for one bit: its gates, their senders and its slots.

Main results:

* `Arithmetic.carry_succ_or` — the carry out of a place;
* `Arithmetic.exists_section` — **the section is made**, with nothing to report.
-/

set_option autoImplicit false
set_option relaxedAutoImplicit false

namespace Breadboard

/-- A number of bits that is not zero is accepted. -/
theorem Preset.checkWordSize_eq_ok {n : Nat} (hn : 1 ≤ n) : checkWordSize (.int n) = .ok () := by
  have hsmall : Quantity.isLess (.whole n) (.whole 1) = false := by
    rw [Quantity.isLess_whole]
    exact decide_eq_false (by omega)
  show (if Quantity.isLess (.whole n) (.whole 1) then _ else _) = _
  rw [hsmall]
  rfl

/-- The number of bits is passed on. -/
theorem Preset.truncatedBits_int (n : Nat) : truncatedBits (.int n) = .ok n := rfl

namespace Arithmetic

/-- The carry out of a place, by the three gates that carry to the next one. -/
theorem carry_succ_or {n : Nat} (x y : BitVec n) (c : Bool) (i : Nat) :
    ((x.getLsbD i && BitVec.carry i x y c || x.getLsbD i && y.getLsbD i)
      || y.getLsbD i && BitVec.carry i x y c) = BitVec.carry (i + 1) x y c := by
  rw [BitVec.carry_succ, Bool.atLeastTwo]
  cases x.getLsbD i <;> cases y.getLsbD i <;> cases BitVec.carry i x y c <;> rfl

/-! ### The section -/

/-- The gates of a full adder for one bit: for the two bits and the carry, three for the carry out,
and one for the sum. -/
def sectionGates : List GateMode := [.or, .or, .or, .and, .and, .and, .xor]

/-- The gates of a full adder that send to each of its gates. -/
def sectionSenders : List (List Nat) := [[], [], [], [0, 2], [0, 1], [1, 2], [0, 1, 2]]

/-- A full adder for one bit. -/
structure IsSection (c : Circuit) : Prop where
  embeddable : c.Embeddable
  parts : c.units.map (fun e => e.part) = sectionGates.map .gate
  senders : (List.range 7).map (Circuit.senders c.units) = sectionSenders
  wires : ∀ e ∈ c.units, e.wires.length ≤ 3
  first : ∃ s, Circuit.findSlot? "a" c.inputs = some s ∧ s.IsRow 1 fun _ => [0]
  second : ∃ s, Circuit.findSlot? "b" c.inputs = some s ∧ s.IsRow 1 fun _ => [1]
  carryIn : ∃ s, Circuit.findSlot? "_" c.inputs = some s ∧ s.IsRow 1 fun _ => [2]
  carryOut : ∃ s, Circuit.findSlot? "_" c.outputs = some s ∧ s.IsRow 1 fun _ => [3, 4, 5]
  sum : ∃ s, Circuit.findSlot? "res" c.outputs = some s ∧ s.IsRow 1 fun _ => [6]

/-- The section is made, with nothing to report. -/
theorem exists_section : ∃ c, adderSection .standard = .ok (c, []) ∧ IsSection c := by
  refine ⟨_, rfl, ⟨?_, ?_, ?_, ?_⟩, rfl, rfl, ?_, ?_, ?_, ?_, ?_, ?_⟩
  · -- the slots
    intro side s hs
    rw [← Slot.dangling?_eq_none_iff_inRange]
    revert s
    cases side <;> decide +kernel
  · -- the wires
    unfold Circuit.WiresInRange
    decide +kernel
  · decide +kernel
  · unfold Reading.isCount
    decide +kernel
  · decide +kernel
  · exact ⟨_, rfl, Slot.isRow_one rfl rfl⟩
  · exact ⟨_, rfl, Slot.isRow_one rfl rfl⟩
  · exact ⟨_, rfl, Slot.isRow_one rfl rfl⟩
  · exact ⟨_, rfl, Slot.isRow_one rfl rfl⟩
  · exact ⟨_, rfl, Slot.isRow_one rfl rfl⟩

namespace IsSection

variable {c : Circuit}

theorem length_units (h : IsSection c) : c.units.length = 7 := by
  have hlength := congrArg List.length h.parts
  rwa [List.length_map] at hlength

theorem part_eq (h : IsSection c) (i : Nat) :
    (c.units[i]?).map (fun e => e.part) = (sectionGates[i]?).map .gate := by
  rw [← List.getElem?_map, h.parts, List.getElem?_map]

theorem senders_eq (h : IsSection c) {i : Nat} (hi : i < 7) :
    Circuit.senders c.units i = sectionSenders.getD i [] := by
  rw [← h.senders, List.getD_eq_getElem?_getD, List.getElem?_map, List.getElem?_range hi]
  rfl

/-- The gates that carry out and the one for the sum send to no gate of the section. -/
theorem wires_eq_nil (h : IsSection c) {i : Nat} {e : Element} (he : c.units[i]? = some e)
    (hi : 3 ≤ i) : e.wires = [] := by
  refine List.eq_nil_iff_forall_not_mem.2 fun w hw => ?_
  have hsenders : ∀ j < 7, ∀ s ∈ sectionSenders.getD j [], s < 3 := by decide
  obtain ⟨hpos, hlt⟩ := h.embeddable.wires e (List.mem_of_getElem? he) w hw
  rw [h.length_units] at hlt
  have hj : w.toNat < 7 := by omega
  have hmem : i ∈ Circuit.senders c.units w.toNat :=
    Circuit.mem_senders.2 ⟨e, he, by rwa [Int.toNat_of_nonneg hpos]⟩
  rw [h.senders_eq hj] at hmem
  have hsender := hsenders _ hj i hmem
  omega

end IsSection

end Arithmetic

end Breadboard
