import Breadboard.Proofs.Preset.FullAdder
import Breadboard.Proofs.Preset.GateRows
import Mathlib.Algebra.Group.Int.Defs

/-!
**The inverter negates.**

In two's complement, the negation of a word is its complement and one more.  The inverter is made of
two single gates, of which the second is always off and so keeps the first one on, and of four rows:
for the word, its complement, the carries of the addition of one, and the sum.  The constant signal
is wired to the rows of the carries and of the sum, but as it is one bit wide it reaches only their
lowest place.  The row of the carries is connected to itself, each place to the next one.

The units stand one behind the other, first the two gates, then the rows.

Main definitions:

* `Arithmetic.GateBlock`, `Arithmetic.inverterBlocks` — the blocks of the inverter, and who sends to
  their gates;
* `Arithmetic.InverterParts` — the circuits, and `Arithmetic.InverterParts.placed` — the design;
* `Arithmetic.IsInverter` — the inverter as it is compiled;
* `Arithmetic.inverterState`, `Arithmetic.inverterRank` — the final states and the ranks.

Main results:

* `Arithmetic.exists_isInverter` — the gates, the connections and the slots of the inverter;
* `Arithmetic.IsInverter.follows` — every gate follows the final states;
* `Arithmetic.inverter_eq_error` — it is not compiled if its rows are too long;
* `Arithmetic.inverter_negates` — **the inverter negates, for every width of fewer than `2 ^ 60`
  bits**.
-/

set_option autoImplicit false
set_option relaxedAutoImplicit false

namespace Breadboard

namespace GateMode

theorem output_nor_singleton (a : Bool) : output .nor (([a] : List Bool) : Multiset Bool) = !a := by
  revert a
  decide

theorem output_xor_pair (a b : Bool) :
    output .xor (([a, b] : List Bool) : Multiset Bool) = (a ^^ b) := by
  revert a b
  decide

end GateMode

namespace Arithmetic

/-! ### The design -/

/-- A block of gates of one mode that stand one behind the other. -/
structure GateBlock where
  name : String
  mode : GateMode
  /-- The number of units before the block. -/
  first : Nat
  width : Nat
  /-- Who sends to each gate of the block. -/
  senders : Nat → List Nat

/-- The unit that carries to a place: the constant signal to the lowest one, and to every other one
the place before it in the row of the carries. -/
def carrier (n x : Nat) : Nat := if x = 0 then 0 else 2 + n * 2 + (x - 1)

/-- The blocks of the inverter. -/
def inverterBlocks (n : Nat) : List GateBlock :=
  [⟨"const_signal", .nor, 0, 1, fun _ => [1]⟩,
   ⟨"const_signal_start", .and, 1, 1, fun _ => []⟩,
   ⟨"or", .or, 2 + n * 0, n, fun _ => []⟩,
   ⟨"nor", .nor, 2 + n * 1, n, fun x => [2 + n * 0 + x]⟩,
   ⟨"carry", .and, 2 + n * 2, n, fun x => [2 + n * 1 + x, carrier n x]⟩,
   ⟨"out", .xor, 2 + n * 3, n, fun x => [2 + n * 1 + x, carrier n x]⟩]

/-- Every unit is a gate of a block. -/
theorem exists_eq_first_add {n j : Nat} (hj : j < 4 * n + 2) :
    ∃ b ∈ inverterBlocks n, ∃ x < b.width, j = b.first + x := by
  simp only [inverterBlocks, List.mem_cons, List.not_mem_nil, or_false, exists_eq_or_imp,
    exists_eq_left]
  rcases Nat.lt_or_ge j 2 with hsingle | hrow
  · rcases Nat.lt_or_ge j 1 with hfirst | hsecond
    · exact .inl ⟨j, hfirst, by omega⟩
    · exact .inr <| .inl ⟨j - 1, by omega, by omega⟩
  · rcases Nat.lt_or_ge j (2 + n * 2) with hlow | hhigh
    · rcases Nat.lt_or_ge j (2 + n * 1) with hor | hnor
      · exact .inr <| .inr <| .inl ⟨j - 2, by omega, by omega⟩
      · exact .inr <| .inr <| .inr <| .inl ⟨j - (2 + n * 1), by omega, by omega⟩
    · rcases Nat.lt_or_ge j (2 + n * 3) with hcarry | hout
      · exact .inr <| .inr <| .inr <| .inr <| .inl ⟨j - (2 + n * 2), by omega, by omega⟩
      · exact .inr <| .inr <| .inr <| .inr <| .inr ⟨j - (2 + n * 3), by omega, by omega⟩

/-- The names of the blocks are paths to them. -/
theorem read_name {n : Nat} {b : GateBlock} (hb : b ∈ inverterBlocks n) :
    Path.read defaultSlot b.name = ⟨b.name, defaultSlot, ""⟩ := by
  have hname : b.name ∈ ["const_signal", "const_signal_start", "or", "nor", "carry", "out"] :=
    List.mem_map_of_mem (f := GateBlock.name) hb
  simp only [List.mem_cons, List.not_mem_nil, or_false] at hname
  rcases hname with h | h | h | h | h | h <;> (rw [h]; rfl)

/-- The circuits of the inverter. -/
structure InverterParts (n : Nat) where
  one : Circuit
  never : Circuit
  or : Circuit
  nor : Circuit
  carry : Circuit
  out : Circuit
  isOne : IsGates one 1 .nor
  isNever : IsGates never 1 .and
  isOr : IsGates or n .or
  isNor : IsGates nor n .nor
  isCarry : IsGates carry n .and
  isOut : IsGates out n .xor

namespace InverterParts

variable {n : Nat}

/-- The circuits at their places. -/
def placed (parts : InverterParts n) : List Placed :=
  [⟨"const_signal", parts.one, ⟨2, -1, 0⟩, .identity⟩,
   ⟨"const_signal_start", parts.never, ⟨1, -1, 0⟩, .identity⟩,
   ⟨"or", parts.or, ⟨0, 0, 0⟩, laid⟩,
   ⟨"nor", parts.nor, ⟨1, 0, 0⟩, laid⟩,
   ⟨"carry", parts.carry, ⟨2, 0, 0⟩, laid⟩,
   ⟨"out", parts.out, ⟨3, 0, 0⟩, laid⟩]

theorem nodup_names (parts : InverterParts n) : (parts.placed.map Placed.name).Nodup := by
  show List.Nodup ["const_signal", "const_signal_start", "or", "nor", "carry", "out"]
  decide

/-- A circuit of the design is a block of gates. -/
structure Stands (parts : InverterParts n) (p : Placed) (b : GateBlock) : Prop where
  mem : p ∈ parts.placed
  isGates : IsGates p.circuit b.width b.mode
  name_eq : p.name = b.name
  offset_eq : Assembly.offset (Assembly.circuits parts.placed) p.name = b.first

/-- The circuits are the blocks of the inverter. -/
theorem forall₂_stands (parts : InverterParts n) :
    List.Forall₂ parts.Stands parts.placed (inverterBlocks n) := by
  have hoffset {k : Nat} {p : Placed} (hp : parts.placed[k]? = some p) :=
    Assembly.offset_eq_sum parts.nodup_names hp
  have hmem {k : Nat} {p : Placed} (hp : parts.placed[k]? = some p) := List.mem_of_getElem? hp
  refine
    .cons ⟨hmem (k := 0) rfl, parts.isOne, rfl, (hoffset (k := 0) rfl).trans ?_⟩ <|
    .cons ⟨hmem (k := 1) rfl, parts.isNever, rfl, (hoffset (k := 1) rfl).trans ?_⟩ <|
    .cons ⟨hmem (k := 2) rfl, parts.isOr, rfl, (hoffset (k := 2) rfl).trans ?_⟩ <|
    .cons ⟨hmem (k := 3) rfl, parts.isNor, rfl, (hoffset (k := 3) rfl).trans ?_⟩ <|
    .cons ⟨hmem (k := 4) rfl, parts.isCarry, rfl, (hoffset (k := 4) rfl).trans ?_⟩ <|
    .cons ⟨hmem (k := 5) rfl, parts.isOut, rfl, (hoffset (k := 5) rfl).trans ?_⟩ .nil
  all_goals
    simp only [placed, List.take_zero, List.take_succ_cons, List.map_nil, List.map_cons,
      List.sum_nil, List.sum_cons, parts.isOne.length_units, parts.isNever.length_units,
      parts.isOr.length_units, parts.isNor.length_units, parts.isCarry.length_units]
    try omega

theorem exists_stands (parts : InverterParts n) {b : GateBlock} (hb : b ∈ inverterBlocks n) :
    ∃ p, parts.Stands p b := by
  obtain ⟨k, hk, rfl⟩ := List.getElem_of_mem hb
  have hstands := parts.forall₂_stands
  exact ⟨_, (List.forall₂_iff_get.1 hstands).2 k (hstands.length_eq ▸ hk) hk⟩

theorem exists_block (parts : InverterParts n) {p : Placed} (hp : p ∈ parts.placed) :
    ∃ b, parts.Stands p b := by
  obtain ⟨k, hk, rfl⟩ := List.getElem_of_mem hp
  have hstands := parts.forall₂_stands
  exact ⟨_, (List.forall₂_iff_get.1 hstands).2 k hk (hstands.length_eq ▸ hk)⟩

theorem unitCount_eq (parts : InverterParts n) :
    Assembly.unitCount (Assembly.circuits parts.placed) = 4 * n + 2 := by
  rw [Assembly.unitCount_eq_sum]
  simp only [placed, List.map_nil, List.map_cons, List.sum_nil, List.sum_cons,
    parts.isOne.length_units, parts.isNever.length_units, parts.isOr.length_units,
    parts.isNor.length_units, parts.isCarry.length_units, parts.isOut.length_units]
  omega

/-! ### The connections -/

/-- The slots of one side that paths can name. -/
def scope (parts : InverterParts n) (side : Side) : Scope :=
  Assembly.scope (Assembly.circuits parts.placed) side

section Links

variable (parts : InverterParts n) {b d : GateBlock}

/-- The name of a block leads to its gates. -/
theorem leadsTo_block (hb : b ∈ inverterBlocks n) (side : Side) :
    (parts.scope side).LeadsTo b.name b.width fun x => [((b.first + x : Nat) : Int)] := by
  obtain ⟨p, hp⟩ := parts.exists_stands hb
  obtain ⟨s, hslot, hrow⟩ := hp.isGates.slot side
  have hlead := Assembly.leadsTo_slot (Assembly.names_circuits.symm ▸ parts.nodup_names)
    (Assembly.mem_circuits hp.mem) hslot hrow (hp.name_eq ▸ read_name hb)
  rw [hp.offset_eq, hp.name_eq] at hlead
  have hunits : (fun x : Nat => [(x : Int)].map fun i => i + (b.first : Int))
      = fun (x : Nat) => [((b.first + x : Nat) : Int)] := by
    funext x
    rw [List.map_cons, List.map_nil, Int.natCast_add, Int.add_comm]
  rwa [hunits] at hlead

/-- A block is connected to another, gate by gate, as far as both reach. -/
theorem linkConnections_straight (hb : b ∈ inverterBlocks n) (hd : d ∈ inverterBlocks n)
    {width : Nat} (hwidth : min b.width d.width = width) :
    Assembly.linkConnections (parts.scope .output) (parts.scope .input) (.straight b.name d.name)
        = .ok (lane b.first d.first width)
      ∧ Assembly.linkReport (parts.scope .output) (parts.scope .input) (.straight b.name d.name)
        = [] := by
  have hout := parts.leadsTo_block hb .output
  have hin := parts.leadsTo_block hd .input
  refine ⟨?_, Assembly.linkReport_eq_nil hout hin _⟩
  rw [Assembly.linkConnections_straight hout hin, hwidth, lane, List.map_eq_flatMap]
  rfl

/-- A block is connected to one of its width, each gate to the next one. -/
theorem linkConnections_carry (hb : b ∈ inverterBlocks n) (hd : d ∈ inverterBlocks n)
    (hwidth : d.width = b.width) :
    Assembly.linkConnections (parts.scope .output) (parts.scope .input) (.carry b.name d.name)
        = .ok (lane b.first (d.first + 1) (b.width - 1))
      ∧ Assembly.linkReport (parts.scope .output) (parts.scope .input) (.carry b.name d.name)
        = [] := by
  have hout := parts.leadsTo_block hb .output
  have hin := parts.leadsTo_block hd .input
  rw [hwidth] at hin
  refine ⟨?_, Assembly.linkReport_eq_nil hout hin _⟩
  rw [Assembly.linkConnections_carry hout hin, lane, List.map_eq_flatMap]
  refine congrArg Except.ok (List.flatMap_congr fun x _ => ?_)
  rw [Nat.add_assoc d.first 1 x, Nat.add_comm 1 x]
  rfl

end Links

/-- The links of the inverter. -/
def links : List Link :=
  [.straight "const_signal_start" "const_signal", .straight "const_signal" "carry",
    .straight "const_signal" "out", .straight "or" "nor", .straight "nor" "out",
    .straight "nor" "carry", .carry "carry" "carry", .carry "carry" "out"]

/-- All connections of the inverter. -/
def connections (n : Nat) : List (List (Int × Int)) :=
  [lane 1 0 1, lane 0 (2 + n * 2) 1, lane 0 (2 + n * 3) 1, lane (2 + n * 0) (2 + n * 1) n,
    lane (2 + n * 1) (2 + n * 3) n, lane (2 + n * 1) (2 + n * 2) n,
    lane (2 + n * 2) (2 + n * 2 + 1) (n - 1), lane (2 + n * 2) (2 + n * 3 + 1) (n - 1)]

/-- The connections that the links draw. -/
theorem forall₂_drawn (parts : InverterParts n) (hn : 1 ≤ n) :
    List.Forall₂ (fun link drawn =>
      Assembly.linkConnections (parts.scope .output) (parts.scope .input) link = .ok drawn
        ∧ Assembly.linkReport (parts.scope .output) (parts.scope .input) link = [])
      links (connections n) := by
  have hblock (k : Nat) (hk : k < 6) : (inverterBlocks n).get ⟨k, hk⟩ ∈ inverterBlocks n :=
    List.getElem_mem hk
  have hone := hblock 0 (by decide)
  have hnever := hblock 1 (by decide)
  have hor := hblock 2 (by decide)
  have hnor := hblock 3 (by decide)
  have hcarry := hblock 4 (by decide)
  have hout := hblock 5 (by decide)
  refine .cons ?_ <| .cons ?_ <| .cons ?_ <| .cons ?_ <| .cons ?_ <| .cons ?_ <| .cons ?_ <|
    .cons ?_ .nil
  · exact parts.linkConnections_straight hnever hone rfl
  · exact parts.linkConnections_straight hone hcarry (Nat.min_eq_left hn)
  · exact parts.linkConnections_straight hone hout (Nat.min_eq_left hn)
  · exact parts.linkConnections_straight hor hnor (Nat.min_self n)
  · exact parts.linkConnections_straight hnor hout (Nat.min_self n)
  · exact parts.linkConnections_straight hnor hcarry (Nat.min_self n)
  · exact parts.linkConnections_carry hcarry hcarry rfl
  · exact parts.linkConnections_carry hcarry hout rfl

/-- A gate sends to at most three others. -/
theorem length_receivers_connections (i : Nat) :
    (Assembly.receivers (connections n).flatten (i : Int)).length ≤ 3 := by
  simp only [connections, List.flatten_cons, List.flatten_nil, List.append_nil,
    Assembly.receivers_append, List.length_append]
  -- no block sends over more than two of the lanes
  have hstart := length_receivers_lane 1 0 1 i
  have hone := length_receivers_lane 0 (2 + n * 2) 1 i
  have hone' := length_receivers_lane 0 (2 + n * 3) 1 i
  have hor := length_receivers_lane (2 + n * 0) (2 + n * 1) n i
  have hnor := length_receivers_lane (2 + n * 1) (2 + n * 3) n i
  have hnor' := length_receivers_lane (2 + n * 1) (2 + n * 2) n i
  have hcarry := length_receivers_lane (2 + n * 2) (2 + n * 2 + 1) (n - 1) i
  have hcarry' := length_receivers_lane (2 + n * 2) (2 + n * 3 + 1) (n - 1) i
  omega

/-- No gate of the design sends to more than three others. -/
theorem length_wires_le (parts : InverterParts n) :
    ∀ e ∈ Assembly.linked parts.placed (connections n), e.wires.length ≤ 3 := by
  refine Assembly.length_wires_le 3 parts.nodup_names fun p hp i e he => ?_
  -- the gates have no receivers of their own
  obtain ⟨b, hstands⟩ := parts.exists_block hp
  rw [hstands.isGates.wires e (List.mem_of_getElem? he), List.length_nil, Nat.zero_add]
  exact length_receivers_connections _

/-- Who sends to a gate over the connections. -/
theorem sendersAmong_connections (hn : 1 ≤ n) {b : GateBlock} (hb : b ∈ inverterBlocks n) {x : Nat}
    (hx : x < b.width) :
    (Circuit.sendersAmong (connections n).flatten (b.first + x)).Perm (b.senders x) := by
  simp only [connections, List.flatten_cons, List.flatten_nil, Circuit.sendersAmong_append,
    Circuit.sendersAmong_nil, sendersAmong_lane]
  simp only [inverterBlocks, List.mem_cons, List.not_mem_nil, or_false] at hb
  rcases hb with rfl | rfl | rfl | rfl | rfl | rfl
  · obtain rfl : x = 0 := Nat.lt_one_iff.1 hx
    simp (disch := omega) only [if_pos, if_neg, List.append_nil]
    exact .refl _
  · obtain rfl : x = 0 := Nat.lt_one_iff.1 hx
    simp (disch := omega) only [if_neg, List.append_nil]
    exact .refl _
  · have hx : x < n := hx
    simp (disch := omega) only [if_neg, List.append_nil]
    exact .refl _
  · have hx : x < n := hx
    simp (disch := omega) only [if_pos, if_neg, List.append_nil, List.nil_append]
    rw [Nat.add_sub_cancel_left]
  -- the carries and the sum are sent the same, the lowest place by the constant signal
  all_goals
    have hx : x < n := hx
    rcases Nat.eq_zero_or_pos x with rfl | hpos
    · simp (disch := omega) only [if_pos, if_neg, List.append_nil, List.nil_append]
      rw [Nat.add_sub_cancel_left, carrier, if_pos rfl]
      exact .swap _ _ _
    · have hprev (k : Nat) : 2 + n * k + x - (2 + n * k + 1) = x - 1 := by omega
      simp (disch := omega) only [if_pos, if_neg, List.append_nil, List.nil_append]
      rw [Nat.add_sub_cancel_left, hprev, carrier, if_neg (by omega)]
      exact .refl _

/-- The slot of a word that is a row of the inverter. -/
theorem exists_make_row (parts : InverterParts n) (side : Side) {b : GateBlock}
    (hb : b ∈ inverterBlocks n) (hwidth : n ≤ b.width) :
    ∃ s, (SlotPlan.word "_" n [b.name]).make (parts.scope side) side = .ok (s, [])
      ∧ s.name = "_" ∧ s.IsRow n fun x => [((b.first + x : Nat) : Int)] := by
  have hlead := parts.leadsTo_block hb side
  exact SlotPlan.exists_make_word [(b.name, fun x => [((b.first + x : Nat) : Int)])] rfl rfl
    fun lead hmem => by
      obtain rfl := List.mem_singleton.1 hmem
      exact ⟨b.width, hwidth, hlead⟩

/-- The design fits: all paths lead somewhere, and no gate sends to many others. -/
theorem exists_fits (parts : InverterParts n) (hn : 1 ≤ n)
    (hembeddable : ∀ p ∈ parts.placed, p.circuit.Embeddable) :
    ∃ word out, Assembly.Fits .standard parts.placed links [.word "_" n ["or"]]
        [.word "_" n ["out"]] (connections n) [word] [out]
      ∧ (word.name = "_" ∧ word.IsRow n fun x => [((2 + n * 0 + x : Nat) : Int)])
      ∧ out.name = "_" ∧ out.IsRow n fun x => [((2 + n * 3 + x : Nat) : Int)] := by
  have hblock (k : Nat) (hk : k < 6) : (inverterBlocks n).get ⟨k, hk⟩ ∈ inverterBlocks n :=
    List.getElem_mem hk
  obtain ⟨word, hword, hwordName, hwordRow⟩ :=
    parts.exists_make_row .input (hblock 2 (by decide)) (Nat.le_refl n)
  obtain ⟨out, hout, houtName, houtRow⟩ :=
    parts.exists_make_row .output (hblock 5 (by decide)) (Nat.le_refl n)
  refine ⟨word, out, ?_, ⟨hwordName, hwordRow⟩, houtName, houtRow⟩
  exact {
    names := parts.nodup_names
    embeddable := hembeddable
    drawn := parts.forall₂_drawn hn
    fanOut := fun e he => by
      have hle := parts.length_wires_le e he
      simp only [CompileConfig.standard]
      omega
    inputNames := List.nodup_singleton _
    outputNames := List.nodup_singleton _
    made := .cons hword .nil
    shown := .cons hout .nil }

end InverterParts

/-! ### Linking -/

/-- The inverter as it is compiled: the gates with their senders, and the slots. -/
structure IsInverter (c : Circuit) (n : Nat) : Prop where
  length_units : c.units.length = 4 * n + 2
  part_eq : ∀ b ∈ inverterBlocks n, ∀ x < b.width,
    (c.units[b.first + x]?).map (fun e => e.part) = some (.gate b.mode)
  senders : ∀ b ∈ inverterBlocks n, ∀ x < b.width,
    (Circuit.senders c.units (b.first + x)).Perm (b.senders x)
  inputs : ∃ s, c.inputs = [s] ∧ s.name = "_" ∧ s.IsRow n fun x => [((2 + n * 0 + x : Nat) : Int)]
  outputs : ∃ s, c.outputs = [s] ∧ s.name = "_" ∧ s.IsRow n fun x => [((2 + n * 3 + x : Nat) : Int)]

/-- The circuits of the inverter are those that are made for it. -/
structure InverterParts.Made {n : Nat} (parts : InverterParts n) : Prop where
  one : gate .nor = .ok parts.one
  never : gate .and = .ok parts.never
  or : row n .or (.facing .posY) = .ok parts.or
  nor : row n .nor (.facing .posZ) = .ok parts.nor
  carry : row n .and (.facing .posZ) = .ok parts.carry
  out : row n .xor (.facing .negY) = .ok parts.out

/-- The parts of the inverter are made if its rows are not too long, and can be put into an
assembly. -/
theorem exists_parts {n : Nat} (hword : n < 2 ^ 60) : ∃ parts : InverterParts n, parts.Made
      ∧ (∀ config, inverter config n
        = (Assembly.ofPlaced config parts.placed InverterParts.links [.word "_" n ["or"]]
            [.word "_" n ["out"]]).linkFor "inverter")
      ∧ ∀ p ∈ parts.placed, p.circuit.Embeddable := by
  obtain ⟨one, hone, isOne, honeFits⟩ := exists_gate .nor
  obtain ⟨never, hnever, isNever, hneverFits⟩ := exists_gate .and
  obtain ⟨or, hor, isOr⟩ := exists_row hword .or (.facing .posY)
  obtain ⟨nor, hnor, isNor⟩ := exists_row hword .nor (.facing .posZ)
  obtain ⟨carry, hcarry, isCarry⟩ := exists_row hword .and (.facing .posZ)
  obtain ⟨out, hout, isOut⟩ := exists_row hword .xor (.facing .negY)
  refine ⟨⟨one, never, or, nor, carry, out, isOne, isNever, isOr.isGates, isNor.isGates,
    isCarry.isGates, isOut.isGates⟩, ⟨hone, hnever, hor, hnor, hcarry, hout⟩, fun config => ?_,
    fun p hp => ?_⟩
  · rw [inverter, hone, Fault.ok_bind, hnever, Fault.ok_bind, hor, Fault.ok_bind, hnor,
      Fault.ok_bind, hcarry, Fault.ok_bind, hout, Fault.ok_bind]
    rfl
  · simp only [InverterParts.placed, List.mem_cons, List.not_mem_nil, or_false] at hp
    rcases hp with rfl | rfl | rfl | rfl | rfl | rfl
    · exact honeFits
    · exact hneverFits
    · exact isOr.embeddable hword
    · exact isNor.embeddable hword
    · exact isCarry.embeddable hword
    · exact isOut.embeddable hword

/-- The inverter is compiled if its rows are not too long, with nothing to report. -/
theorem exists_isInverter {n : Nat} (hn : 1 ≤ n) (hword : n < 2 ^ 60) :
    ∃ c, inverter .standard n = .ok (c, []) ∧ IsInverter c n := by
  obtain ⟨parts, _, hmade, hembeddable⟩ := exists_parts hword
  obtain ⟨word, out, hfits, hinput, houtput⟩ := parts.exists_fits hn hembeddable
  obtain ⟨c, hlink, hunits, hinputs, houtputs⟩ := hfits.exists_linkFor "inverter"
  refine ⟨c, (hmade .standard).trans hlink, ?_, fun b hb x hx => ?_, fun b hb x hx => ?_,
    ⟨word, hinputs, hinput⟩, ⟨out, houtputs, houtput⟩⟩
  · rw [hunits, Assembly.Fits.length_linked, parts.unitCount_eq]
  · obtain ⟨p, hp⟩ := parts.exists_stands hb
    have hpart := hfits.part_linked hp.mem (i := x) (by rw [hp.isGates.length_units]; exact hx)
    rw [hunits, ← hp.offset_eq, hpart, hp.isGates.part_eq hx]
  · obtain ⟨p, hp⟩ := parts.exists_stands hb
    have hsenders := hfits.senders_linked hp.mem (i := x)
      (by rw [hp.isGates.length_units]; exact hx)
    rw [hp.isGates.senders_eq_nil, List.map_nil, List.nil_append, hp.offset_eq, ← hunits]
      at hsenders
    exact hsenders.trans (InverterParts.sendersAmong_connections hn hb hx)

/-- The inverter is not compiled if its rows are too long. -/
theorem inverter_eq_error {n : Nat} (hword : 2 ^ 60 ≤ n) (config : CompileConfig) :
    inverter config n = .error (SlotPlan.rowFault n) := by
  obtain ⟨one, hone, _⟩ := exists_gate .nor
  obtain ⟨never, hnever, _⟩ := exists_gate .and
  rw [inverter, hone, Fault.ok_bind, hnever, Fault.ok_bind, row_eq_error hword, Fault.error_bind]

/-! ### The final states -/

section States

variable {n : Nat}

/-- The bit that is carried into a place when one is added to the complement of a word. -/
def carryIn (v : BitVec n) (x : Nat) : Bool := BitVec.carry x (~~~v) 0#n true

/-- The final state of place `x` of row `k`: the word, its complement, the carry out of the place,
and the bit of the sum. -/
def inverterRowState (v : BitVec n) (k x : Nat) : Bool :=
  match k with
  | 0 => v.getLsbD x
  | 1 => !v.getLsbD x
  | 2 => !v.getLsbD x && carryIn v x
  | _ => !v.getLsbD x ^^ carryIn v x

/-- The final state of a unit: the constant signal is on, and the gate that starts it is off. -/
def inverterState (v : BitVec n) (j : Nat) : Bool :=
  if j < 2 then decide (j = 0) else Circuit.blockwise n (inverterRowState v) (j - 2)

/-- The rank of place `x` of row `k`: every carry comes after the one before it. -/
def inverterRowRank (k x : Nat) : Nat :=
  match k with
  | 0 => 0
  | 1 => 1
  | _ => x + 2

/-- The rank of a unit. -/
def inverterRank (n j : Nat) : Nat :=
  if j < 2 then 1 - j else Circuit.blockwise n inverterRowRank (j - 2)

section Rows

variable {x : Nat}

theorem inverterState_row (v : BitVec n) (k : Nat) (hx : x < n) :
    inverterState v (2 + n * k + x) = inverterRowState v k x := by
  have hplace : 2 + n * k + x - 2 = n * k + x := by omega
  rw [inverterState, if_neg (by omega), hplace, Circuit.blockwise_eq _ _ hx]

theorem inverterRank_row (k : Nat) (hx : x < n) :
    inverterRank n (2 + n * k + x) = inverterRowRank k x := by
  have hplace : 2 + n * k + x - 2 = n * k + x := by omega
  rw [inverterRank, if_neg (by omega), hplace, Circuit.blockwise_eq _ _ hx]

/-- The carry into a place is the state of the unit that carries to it. -/
theorem inverterState_carrier (v : BitVec n) (hx : x < n) :
    inverterState v (carrier n x) = carryIn v x := by
  cases x with
  | zero => rw [carrier, if_pos rfl, carryIn, BitVec.carry_zero]; rfl
  | succ x =>
      have hprev : x < n := by omega
      rw [carrier, if_neg (Nat.succ_ne_zero x), Nat.add_sub_cancel, inverterState_row v 2 hprev,
        carryIn, BitVec.carry_succ, Bool.atLeastTwo, BitVec.getLsbD_not, BitVec.getLsbD_zero]
      simp [inverterRowState, carryIn, hprev]

theorem inverterRank_carrier (hx : x < n) : inverterRank n (carrier n x) < x + 2 := by
  cases x with
  | zero => exact Nat.lt_succ_self 1
  | succ x =>
      have hprev : x < n := by omega
      rw [carrier, if_neg (Nat.succ_ne_zero x), Nat.add_sub_cancel, inverterRank_row 2 hprev]
      exact Nat.lt_succ_self _

theorem inverterRank_lt {j : Nat} (hj : j < 4 * n + 2) : inverterRank n j < n + 2 := by
  rw [inverterRank]
  split
  · omega
  · have hplace : (j - 2) % n < n := Nat.mod_lt _ (by omega)
    rw [Circuit.blockwise, inverterRowRank.eq_def]
    split <;> omega

/-- The complement and the carries add up to the negation. -/
theorem sum_eq_getLsbD_neg (v : BitVec n) (hx : x < n) :
    (!v.getLsbD x ^^ carryIn v x) = (-v).getLsbD x := by
  have hone : BitVec.setWidth n (BitVec.ofBool true) = 1#n := by
    apply BitVec.eq_of_toNat_eq
    simp
  have hsum := BitVec.getLsbD_add_add_bool hx (~~~v) 0#n true
  rw [BitVec.getLsbD_zero, Bool.false_xor, BitVec.getLsbD_not, hone, BitVec.add_zero,
    ← BitVec.neg_eq_not_add] at hsum
  rw [hsum, carryIn, decide_eq_true hx, Bool.true_and]

end Rows

namespace IsInverter

variable {c : Circuit}

/-- What drives the gates: the bits of the word drive the first row. -/
theorem driven_eq (h : IsInverter c n) (v : BitVec n) (j : Nat) :
    c.driven [("_", v.toNat)] j = if j - 2 < n ∧ 2 ≤ j then [v.getLsbD (j - 2)] else [] := by
  obtain ⟨s, hinputs, hname, hrow⟩ := h.inputs
  have hword : Keyed.find? s.name [("_", v.toNat)] = some v.toNat := by rw [hname]; rfl
  simp only [Circuit.driven, hinputs, List.flatMap_cons, List.flatMap_nil, hword, List.append_nil]
  refine (hrow.driven_eq_ite v.toNat fun y _ => ?_).trans rfl
  rw [List.count_singleton]
  refine if_congr ?_ rfl rfl
  rw [beq_iff_eq]
  omega

/-- Only the first row is driven. -/
theorem driven_eq_nil (h : IsInverter c n) (v : BitVec n) {j : Nat} (hj : j < 2 ∨ 2 + n ≤ j) :
    c.driven [("_", v.toNat)] j = [] := by
  rw [h.driven_eq, if_neg (by omega)]

/-- The carries and the sum listen to the complement and to what is carried into the place. -/
theorem follows_sum (h : IsInverter c n) (v : BitVec n) {k x : Nat} {mode : GateMode} (hk : 2 ≤ k)
    (hx : x < n) (hpart : (c.units[2 + n * k + x]?).map (fun e => e.part) = some (.gate mode))
    (hsenders : (Circuit.senders c.units (2 + n * k + x)).Perm [2 + n * 1 + x, carrier n x])
    (houtput : mode.output (([!v.getLsbD x, carryIn v x] : List Bool) : Multiset Bool)
      = inverterRowState v k x) :
    c.Follows [("_", v.toNat)] (inverterRank n) (inverterState v) (2 + n * k + x) := by
  have hrank : inverterRowRank k x = x + 2 := by
    obtain ⟨k, rfl⟩ : ∃ j, k = j + 2 := ⟨k - 2, by omega⟩
    rfl
  have hdriven : c.driven [("_", v.toNat)] (2 + n * k + x) = [] := by
    have hbehind : n * 1 ≤ n * k := Nat.mul_le_mul_left n (by omega)
    exact h.driven_eq_nil v (.inr (by omega))
  refine ⟨mode, _, hpart, hsenders, fun i hi => ?_, ?_⟩
  · rw [inverterRank_row k hx, hrank]
    rcases List.mem_pair.1 hi with rfl | rfl
    · rw [inverterRank_row 1 hx]
      exact Nat.succ_lt_succ (Nat.succ_pos x)
    · exact inverterRank_carrier hx
  · rw [hdriven, inverterState_row v k hx, List.append_nil, List.map_cons, List.map_cons,
      List.map_nil, inverterState_row v 1 hx, inverterState_carrier v hx]
    exact houtput

/-- Every gate of the inverter follows the final states. -/
theorem follows (h : IsInverter c n) (v : BitVec n) {b : GateBlock} (hb : b ∈ inverterBlocks n)
    {x : Nat} (hx : x < b.width) :
    c.Follows [("_", v.toNat)] (inverterRank n) (inverterState v) (b.first + x) := by
  have hpart := h.part_eq b hb x hx
  have hsenders := h.senders b hb x hx
  simp only [inverterBlocks, List.mem_cons, List.not_mem_nil, or_false] at hb
  rcases hb with rfl | rfl | rfl | rfl | rfl | rfl <;> dsimp only at hx hpart hsenders ⊢
  · -- the constant signal
    obtain rfl : x = 0 := Nat.lt_one_iff.1 hx
    refine ⟨.nor, _, hpart, hsenders, fun i hi => ?_, ?_⟩
    · rw [List.mem_singleton.1 hi]
      exact Nat.zero_lt_one
    · rw [h.driven_eq_nil v (.inl (by omega))]
      exact GateMode.output_nor_singleton (inverterState v 1)
  · -- the gate that starts it
    obtain rfl : x = 0 := Nat.lt_one_iff.1 hx
    refine ⟨.and, _, hpart, hsenders, fun i hi => absurd hi List.not_mem_nil, ?_⟩
    rw [h.driven_eq_nil v (.inl (by omega))]
    rfl
  · -- the word
    refine ⟨.or, _, hpart, hsenders, fun i hi => absurd hi List.not_mem_nil, ?_⟩
    have hplace : 2 + n * 0 + x - 2 = x := by omega
    rw [h.driven_eq, if_pos (by omega), hplace, inverterState_row v 0 hx]
    exact GateMode.output_or_singleton (v.getLsbD x)
  · -- its complement
    refine ⟨.nor, _, hpart, hsenders, fun i hi => ?_, ?_⟩
    · rw [List.mem_singleton.1 hi, inverterRank_row 0 hx, inverterRank_row 1 hx]
      exact Nat.zero_lt_one
    · rw [h.driven_eq_nil v (.inr (by omega)), inverterState_row v 1 hx, List.map_cons,
        List.map_nil, inverterState_row v 0 hx]
      exact GateMode.output_nor_singleton (v.getLsbD x)
  · exact h.follows_sum v (by decide) hx hpart hsenders (GateMode.output_and_pair _ _)
  · exact h.follows_sum v (by decide) hx hpart hsenders (GateMode.output_xor_pair _ _)

/-- The inverter settles after one tick for each bit and two more, and then shows the negation. -/
theorem settles (h : IsInverter c n) (v : BitVec n) :
    c.SettledAt [("_", v.toNat)] (n + 2)
      ∧ c.numbers (c.states [("_", v.toNat)] (n + 2)) = [("_", (-v).toNat)] := by
  have hfollows : ∀ j < c.units.length,
      c.Follows [("_", v.toNat)] (inverterRank n) (inverterState v) j := by
    intro j hj
    obtain ⟨b, hb, x, hx, rfl⟩ := exists_eq_first_add (h.length_units ▸ hj)
    exact h.follows v hb hx
  have hrank : ∀ j < c.units.length, inverterRank n j < n + 2 := by
    intro j hj
    exact inverterRank_lt (h.length_units ▸ hj)
  refine ⟨Circuit.settledAt_of_rank hfollows hrank, ?_⟩
  obtain ⟨s, houtputs, hname, hrow⟩ := h.outputs
  have hbits : ∀ x < n, ([((2 + n * 3 + x : Nat) : Int)].any fun i =>
      c.states [("_", v.toNat)] (n + 2) i.toNat) = (-v).toNat.testBit x := by
    intro x hx
    have hunit : 2 + n * 3 + x < c.units.length := by
      rw [h.length_units]
      omega
    rw [List.any_cons, List.any_nil, Bool.or_false, Int.toNat_natCast,
      Circuit.states_eq_of_rank hfollows (n + 2) _ hunit (hrank _ hunit), inverterState_row v 3 hx]
    exact sum_eq_getLsbD_neg v hx
  rw [Circuit.numbers, houtputs, List.map_cons, List.map_nil, hname, hrow.number_eq hbits,
    Nat.mod_eq_of_lt (BitVec.isLt _)]

end IsInverter

end States

/-! ### The preset -/

/-- The preset passes on the width. -/
theorem make_inverter {n : Nat} (hn : 1 ≤ n) (config : CompileConfig) :
    Preset.inverter.make [("word_size", .int n)] config = inverter config n := by
  show (Preset.checkWordSize (.int n) >>= fun _ => Preset.truncatedBits (.int n) >>= fun bits =>
    inverter config bits) = _
  rw [Preset.checkWordSize_eq_ok hn, Fault.ok_bind, Preset.truncatedBits_int, Fault.ok_bind]

/-- The negation of a word, as a remainder. -/
theorem toNat_neg_ofNatLT {n v : Nat} (hv : v < 2 ^ n) :
    (-BitVec.ofNatLT v hv).toNat = ((-(v : Int)) % 2 ^ n).toNat := by
  have hpow : (((2 ^ n : Nat) : Int)) = 2 ^ n := by push_cast; rfl
  have hdiff : ((2 ^ n - v : Nat) : Int) = -(v : Int) + 2 ^ n := by
    rw [Int.ofNat_sub (Nat.le_of_lt hv), hpow, Int.sub_eq_add_neg, Int.add_comm]
  have hmod : (((2 ^ n - v) % 2 ^ n : Nat) : Int) = (-(v : Int)) % 2 ^ n := by
    rw [Int.natCast_emod, hdiff, hpow, Int.add_emod_right]
  rw [BitVec.toNat_neg, BitVec.toNat_ofNatLT, ← hmod, Int.toNat_natCast]

/-- **The inverter negates, for every width of fewer than `2 ^ 60` bits**: it is compiled with
nothing to report, and whatever word drives its input, it settles and shows the negation in two's
complement.  For a greater width there can be no array over a row. -/
theorem inverter_negates (n : Nat) (hn : 1 ≤ n) :
    (n < 2 ^ 60 → ∃ c, Preset.inverter.make [("word_size", .int n)] .standard = .ok (c, [])
      ∧ c.units.length = 4 * n + 2
      ∧ ∀ v, v < 2 ^ n → ∃ t, c.SettledAt [("_", v)] t
        ∧ c.numbers (c.states [("_", v)] t) = [("_", ((-(v : Int)) % 2 ^ n).toNat)])
    ∧ (2 ^ 60 ≤ n → Preset.inverter.make [("word_size", .int n)] .standard
      = .error (SlotPlan.rowFault n)) := by
  rw [make_inverter hn .standard]
  refine ⟨fun hword => ?_, fun hword => inverter_eq_error hword .standard⟩
  obtain ⟨c, hmade, h⟩ := exists_isInverter hn hword
  refine ⟨c, hmade, h.length_units, fun v hv => ?_⟩
  obtain ⟨hsettled, hnumbers⟩ := h.settles (BitVec.ofNatLT v hv)
  rw [toNat_neg_ofNatLT, BitVec.toNat_ofNatLT] at hnumbers
  exact ⟨n + 2, hsettled, hnumbers⟩

/-- The negation of a word of four bits; and a width that is too great. -/
theorem inverter_negates_nibble :
    (∃ c, Preset.inverter.make [("word_size", .int 4)] .standard = .ok (c, [])
      ∧ c.units.length = 18
      ∧ ∃ t, c.SettledAt [("_", 5)] t ∧ c.numbers (c.states [("_", 5)] t) = [("_", 11)])
    ∧ Preset.inverter.make [("word_size", .int (2 ^ 60 : Nat))] .standard
      = .error .boxTooLarge := by
  obtain ⟨c, hmade, hlength, hnegates⟩ := (inverter_negates 4 (by decide)).1 (by decide)
  have hfault : SlotPlan.rowFault (2 ^ 60) = .boxTooLarge := if_pos (by decide)
  exact ⟨⟨c, hmade, hlength, hnegates 5 (by decide)⟩,
    hfault ▸ (inverter_negates (2 ^ 60) (by decide)).2 (by decide)⟩

/-- Not every width is compiled into four gates for each bit and two more: with `2 ^ 60` bits there
can be no array over a row, and for the width `1.5` there are six gates, not eight. -/
theorem not_inverter_every_width :
    (∀ c, Preset.inverter.make [("word_size", .int (2 ^ 60 : Nat))] .standard ≠ .ok (c, []))
      ∧ ∃ c, Preset.inverter.make [("word_size", .float ⟨0x3FF8000000000000⟩)] .standard
        = .ok (c, []) ∧ c.units.length = 6 := by
  constructor
  · intro c h
    rw [make_inverter (by decide), inverter_eq_error (Nat.le_refl _)] at h
    cases h
  · obtain ⟨c, hmade, hc⟩ := exists_isInverter (n := 1) (by decide) (by decide)
    refine ⟨c, Eq.trans ?_ hmade, hc.length_units⟩
    -- a row has one place only
    have hchecked : Preset.checkWordSize (.float ⟨0x3FF8000000000000⟩) = .ok () := rfl
    have hbits : Preset.truncatedBits (.float ⟨0x3FF8000000000000⟩) = .ok 1 := rfl
    show (Preset.checkWordSize (.float ⟨0x3FF8000000000000⟩) >>= fun _ =>
      Preset.truncatedBits (.float ⟨0x3FF8000000000000⟩) >>= fun bits =>
        inverter .standard bits) = _
    rw [hchecked, Fault.ok_bind, hbits, Fault.ok_bind]

end Arithmetic

end Breadboard
