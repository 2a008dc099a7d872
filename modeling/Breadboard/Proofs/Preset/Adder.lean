import Breadboard.Proofs.Preset.FullAdder
import Breadboard.Proofs.Signal.Gates

/-!
**The chain of full adders adds.**

Unit `7 k + i` of the adder is unit `i` of the section for bit `k`, and the three gates that carry
out of a section send to the gate for the carry of the next one.  Along the chain the ranks grow by
two with each bit, so the adder settles after `2 n` ticks, and its final states are the bits of the
words, the carries and the bits of the sum.

Main definitions:

* `Arithmetic.sections`, `Arithmetic.carries` — the design: the sections, and what connects two;
* `Arithmetic.chainState`, `Arithmetic.chainRank` — the final states and the ranks.

Main results:

* `Arithmetic.exists_fits_adder` — the connections and the slots of the adder;
* `Arithmetic.IsChain.follows` — every gate follows the final states;
* `Arithmetic.adder_adds` — **the adder adds, for every width**.
-/

set_option autoImplicit false
set_option relaxedAutoImplicit false

namespace Breadboard

namespace Arithmetic

/-! ### The design -/

/-- The sections of the adder, one behind the other. -/
def sections (part : Circuit) (n : Nat) : List Placed :=
  (List.range n).map fun (i : Nat) => ⟨toString i, part, ⟨0, i, 0⟩, .identity⟩

/-- The connections that carry out of section `k`. -/
def carries (k : Nat) : List (Int × Int) :=
  [((7 * k + 3 : Nat), (7 * (k + 1) + 2 : Nat)), ((7 * k + 4 : Nat), (7 * (k + 1) + 2 : Nat)),
    ((7 * k + 5 : Nat), (7 * (k + 1) + 2 : Nat))]

section Design

variable {part : Circuit} {n k : Nat}

theorem nodup_sections : ((sections part n).map Placed.name).Nodup := by
  rw [sections, List.map_map]
  exact Numeral.nodup_names n

theorem getElem?_sections (part : Circuit) (hk : k < n) :
    (sections part n)[k]? = some ⟨toString k, part, ⟨0, k, 0⟩, .identity⟩ := by
  rw [sections, List.getElem?_map, List.getElem?_range hk]
  rfl

theorem circuit_of_mem {p : Placed} (hp : p ∈ sections part n) : p.circuit = part := by
  obtain ⟨i, _, rfl⟩ := List.mem_map.1 hp
  rfl

theorem length_of_mem (h : IsSection part) {p : Placed} (hp : p ∈ sections part n) :
    p.circuit.units.length = 7 := by
  rw [circuit_of_mem hp]
  exact h.length_units

/-- A path to a slot of a section leads to its units. -/
theorem leadsTo_section (h : IsSection part) (hk : k < n) (side : Side) {slot : String} {s : Slot}
    {ids : List Int} (hslot : Circuit.findSlot? slot (part.slots side) = some s)
    (hrow : s.IsRow 1 fun _ => ids) {path : String}
    (hpath : Path.read defaultSlot path = ⟨toString k, slot, ""⟩) :
    (Assembly.scope (Assembly.circuits (sections part n)) side).LeadsTo path 1 fun _ =>
      ids.map fun i => i + ((7 * k : Nat) : Int) := by
  have hp := getElem?_sections part hk
  have hlead := Assembly.leadsTo_slot (Assembly.names_circuits.symm ▸ nodup_sections)
    (Assembly.mem_circuits (List.mem_of_getElem? hp)) hslot hrow hpath
  rwa [Assembly.offset_eq_mul nodup_sections (fun p hp => length_of_mem h hp) hp] at hlead

/-- Two sections that follow one another are connected by the carries. -/
theorem linkConnections_carries (h : IsSection part) (hk : k + 1 < n) :
    let outputs := Assembly.scope (Assembly.circuits (sections part n)) .output
    let inputs := Assembly.scope (Assembly.circuits (sections part n)) .input
    let link : Link := .straight (toString k) (toString (k + 1))
    Assembly.linkConnections outputs inputs link = .ok (carries k)
      ∧ Assembly.linkReport outputs inputs link = [] := by
  intro outputs inputs link
  obtain ⟨source, hsource, hsourceRow⟩ := h.carryOut
  obtain ⟨target, htarget, htargetRow⟩ := h.carryIn
  have hout := leadsTo_section h (by omega : k < n) .output hsource hsourceRow
    (Path.read_scheme (Numeral.separator_notMem k))
  have hin := leadsTo_section h hk .input htarget htargetRow
    (Path.read_scheme (Numeral.separator_notMem (k + 1)))
  refine ⟨?_, Assembly.linkReport_eq_nil hout hin _⟩
  rw [Assembly.linkConnections_straight hout hin]
  simp only [carries, List.range_succ, List.range_zero, Nat.min_self, List.nil_append,
    List.flatMap_cons, List.flatMap_nil, List.map_cons, List.map_nil, List.append_nil,
    List.cons_append, Except.ok.injEq, List.cons.injEq, Prod.mk.injEq, and_true]
  omega

/-- Only the three gates that carry out of a section send over its carries. -/
theorem receivers_carries_eq_nil {j : Nat} (h : j < 7 * k + 3 ∨ 7 * k + 6 ≤ j) :
    Assembly.receivers (carries k) (j : Int) = [] := by
  rw [Assembly.receivers, List.map_eq_nil_iff, List.filter_eq_nil_iff]
  intro c hc
  simp only [carries, List.mem_cons, List.not_mem_nil, or_false] at hc
  rw [beq_iff_eq]
  rcases hc with rfl | rfl | rfl <;> (simp only []; omega)

/-- The connections that a gate is given are those that carry out of its section. -/
theorem length_receivers_carries (j l : Nat) :
    (Assembly.receivers ((List.range l).map carries).flatten (j : Int)).length ≤ 3 := by
  have hother : ∀ x < l, x ≠ j / 7 → Assembly.receivers (carries x) (j : Int) = [] :=
    fun x _ hne => receivers_carries_eq_nil (by omega)
  rw [← List.flatMap_def, Assembly.receivers_flatMap]
  refine Nat.le_trans (Row.length_flatMap_range_le hother) ?_
  rw [Assembly.receivers, List.length_map]
  exact List.length_filter_le _ _

/-- No gate of the adder sends to more than three others: those for the bits and the carry send
inside their section, and the others out of it. -/
theorem length_wires_sections (h : IsSection part) (n : Nat) :
    ∀ e ∈ Assembly.linked (sections part n) ((List.range (n - 1)).map carries),
      e.wires.length ≤ 3 := by
  refine Assembly.length_wires_le 3 nodup_sections fun p hp i e he => ?_
  obtain ⟨k, hk⟩ := List.getElem?_of_mem hp
  rw [Assembly.offset_eq_mul nodup_sections (fun p hp => length_of_mem h hp) hk]
  rw [circuit_of_mem hp] at he
  rcases Nat.lt_or_ge i 3 with hi | hi
  · have hgiven : Assembly.receivers ((List.range (n - 1)).map carries).flatten
        ((7 * k + i : Nat) : Int) = [] := by
      rw [← List.flatMap_def, Assembly.receivers_flatMap, List.flatMap_eq_nil_iff]
      exact fun x _ => receivers_carries_eq_nil (by omega)
    rw [hgiven]
    exact h.wires e (List.mem_of_getElem? he)
  · rw [h.wires_eq_nil he hi, List.length_nil, Nat.zero_add]
    exact length_receivers_carries _ (n - 1)

/-- The slot of a word whose bits lead to a slot of each section. -/
theorem exists_make_bits (h : IsSection part) (n : Nat) (name : String) (side : Side)
    {slot : String} {s : Slot} {i : Nat} (hslot : Circuit.findSlot? slot (part.slots side) = some s)
    (hrow : s.IsRow 1 fun _ => [(i : Int)]) {pathOf : Nat → String}
    (hpath : ∀ x < n, Path.read defaultSlot (pathOf x) = ⟨toString x, slot, ""⟩) :
    ∃ t, (SlotPlan.wordByBit name n pathOf).make
        (Assembly.scope (Assembly.circuits (sections part n)) side) side = .ok (t, [])
      ∧ t.name = name ∧ t.IsRow n fun x => [((7 * x + i : Nat) : Int)] := by
  refine SlotPlan.exists_make_wordByBit rfl rfl fun x hx => ?_
  have hlead := leadsTo_section h hx side hslot hrow (hpath x hx)
  have hunit : (i : Int) + ((7 * x : Nat) : Int) = ((7 * x + i : Nat) : Int) := by omega
  rwa [List.map_cons, List.map_nil, hunit] at hlead

/-- A path to a named slot of a section. -/
theorem read_section (x : Nat) (tail : String) {slot : String}
    (htail : tail = String.singleton Path.separator ++ slot) (hslot : Path.separator ∉ slot.toList)
    (hne : slot ≠ "") :
    Path.read defaultSlot (toString x ++ tail) = ⟨toString x, slot, ""⟩ := by
  rw [htail, ← String.append_assoc]
  exact Path.read_slot (Numeral.separator_notMem x) hslot hne

/-- The connections and the slots of the adder. -/
theorem exists_fits_adder (h : IsSection part) (n : Nat) :
    ∃ first second sum, Assembly.Fits .standard (sections part n)
        ((List.range (n - 1)).map fun i => .straight (toString i) (toString (i + 1)))
        [.wordByBit "a" n fun x => toString x ++ "/a", .wordByBit "b" n fun x => toString x ++ "/b"]
        [.wordByBit "_" n fun x => toString x ++ "/res"]
        ((List.range (n - 1)).map carries) [first, second] [sum]
      ∧ (first.name = "a" ∧ first.IsRow n fun x => [((7 * x + 0 : Nat) : Int)])
      ∧ (second.name = "b" ∧ second.IsRow n fun x => [((7 * x + 1 : Nat) : Int)])
      ∧ sum.name = "_" ∧ sum.IsRow n fun x => [((7 * x + 6 : Nat) : Int)] := by
  obtain ⟨a, ha, haRow⟩ := h.first
  obtain ⟨b, hb, hbRow⟩ := h.second
  obtain ⟨r, hr, hrRow⟩ := h.sum
  obtain ⟨first, hfirst, hfirstName, hfirstRow⟩ := exists_make_bits h n "a" .input ha haRow
    fun x _ => read_section x "/a" (by decide) (by decide) (by decide)
  obtain ⟨second, hsecond, hsecondName, hsecondRow⟩ := exists_make_bits h n "b" .input hb hbRow
    fun x _ => read_section x "/b" (by decide) (by decide) (by decide)
  obtain ⟨sum, hsum, hsumName, hsumRow⟩ := exists_make_bits h n "_" .output hr hrRow
    fun x _ => read_section x "/res" (by decide) (by decide) (by decide)
  refine ⟨first, second, sum, ?_, ⟨hfirstName, hfirstRow⟩, ⟨hsecondName, hsecondRow⟩, hsumName,
    hsumRow⟩
  exact {
    names := nodup_sections
    embeddable := fun p hp => by rw [circuit_of_mem hp]; exact h.embeddable
    drawn := List.forall₂_map_left_iff.2 <| List.forall₂_map_right_iff.2 <|
      List.forall₂_same.2 fun k hk => by
        have hk := List.mem_range.1 hk
        exact linkConnections_carries h (by omega)
    fanOut := fun e he => by
      have hle := length_wires_sections h n e he
      simp only [CompileConfig.standard]
      omega
    inputNames := by simp [SlotPlan.wordByBit, SlotPlan.word]
    outputNames := by simp [SlotPlan.wordByBit, SlotPlan.word]
    made := .cons hfirst (.cons hsecond .nil)
    shown := .cons hsum .nil }

/-! ### Signals along the chain -/

/-- The carries lead to the gate for the carry of the next section. -/
theorem sendersAmong_carries (k j : Nat) :
    Circuit.sendersAmong (carries k) j
      = if j = 7 * (k + 1) + 2 then [3, 4, 5].map fun i => 7 * k + i else [] := by
  by_cases hj : j = 7 * (k + 1) + 2
  · subst hj
    rw [if_pos rfl]
    simp [Circuit.sendersAmong, carries]
    omega
  · have hne : ((7 * (k + 1) + 2 : Nat) : Int) ≠ (j : Int) := by omega
    rw [if_neg hj, Circuit.sendersAmong, List.map_eq_nil_iff, List.filter_eq_nil_iff]
    intro c hc
    simp only [carries, List.mem_cons, List.not_mem_nil, or_false] at hc
    rw [beq_iff_eq]
    rcases hc with rfl | rfl | rfl <;> exact hne

/-- No section is sent to but by its own gates, except that the carry is. -/
theorem sendersAmong_eq_nil {i : Nat} (hi : i < 7) (h : i ≠ 2 ∨ k = 0) (l : Nat) :
    Circuit.sendersAmong ((List.range l).map carries).flatten (7 * k + i) = [] := by
  rw [← List.flatMap_def, Circuit.sendersAmong_flatMap, List.flatMap_eq_nil_iff]
  intro x _
  rw [sendersAmong_carries, if_neg]
  omega

/-- The carry of a section is sent to by the gates that carry out of the one before. -/
theorem sendersAmong_succ {l : Nat} (hk : k < l) :
    Circuit.sendersAmong ((List.range l).map carries).flatten (7 * (k + 1) + 2)
      = [3, 4, 5].map fun i => 7 * k + i := by
  rw [← List.flatMap_def, Circuit.sendersAmong_flatMap, Row.flatMap_range_eq hk]
  · rw [sendersAmong_carries, if_pos rfl]
  · intro x _ hne
    rw [sendersAmong_carries, if_neg]
    omega

end Design

/-- The adder as it is compiled: the gates and the senders of each section, the senders of the
carries, and the slots. -/
structure IsChain (c : Circuit) (n : Nat) : Prop where
  length_units : c.units.length = 7 * n
  part_eq : ∀ k < n, ∀ i < 7,
    (c.units[7 * k + i]?).map (fun e => e.part) = (sectionGates[i]?).map .gate
  senders_own : ∀ k < n, ∀ i < 7, i ≠ 2 ∨ k = 0 →
    (Circuit.senders c.units (7 * k + i)).Perm ((sectionSenders.getD i []).map fun j => 7 * k + j)
  senders_carry : ∀ k, k + 1 < n →
    (Circuit.senders c.units (7 * (k + 1) + 2)).Perm ([3, 4, 5].map fun j => 7 * k + j)
  inputs : ∃ first second, c.inputs = [first, second]
    ∧ (first.name = "a" ∧ first.IsRow n fun x => [((7 * x + 0 : Nat) : Int)])
    ∧ second.name = "b" ∧ second.IsRow n fun x => [((7 * x + 1 : Nat) : Int)]
  outputs : ∃ sum, c.outputs = [sum]
    ∧ sum.name = "_" ∧ sum.IsRow n fun x => [((7 * x + 6 : Nat) : Int)]

/-- The adder is compiled, with nothing to report. -/
theorem exists_adder (n : Nat) : ∃ c, adder .standard n = .ok (c, []) ∧ IsChain c n := by
  obtain ⟨part, hmade, h⟩ := exists_section
  obtain ⟨first, second, sum, hfits, hfirst, hsecond, hsum⟩ := exists_fits_adder h n
  obtain ⟨c, hlink, hunits, hinputs, houtputs⟩ := hfits.exists_linkFor "adder"
  have hlength : ∀ p ∈ sections part n, p.circuit.units.length = 7 := fun p hp => length_of_mem h hp
  refine ⟨c, ?_, ?_, ?_, ?_, ?_, ⟨first, second, hinputs, hfirst, hsecond⟩, ⟨sum, houtputs, hsum⟩⟩
  · exact Fault.bind_eq_ok_iff.2 ⟨_, hmade, hlink⟩
  · rw [hunits, Assembly.Fits.length_linked, Assembly.unitCount_eq_mul hlength, sections,
      List.length_map, List.length_range]
  · intro k hk i hi
    rw [hunits, hfits.part_block hlength (getElem?_sections part hk) hi, h.part_eq]
  · intro k hk i hi hown
    have hsenders := hfits.senders_block hlength (getElem?_sections part hk) hi
    rwa [sendersAmong_eq_nil hi hown, List.append_nil, h.senders_eq hi, ← hunits] at hsenders
  · intro k hk
    have hsenders := hfits.senders_block hlength (getElem?_sections part hk) (i := 2) (by decide)
    rwa [sendersAmong_succ (by omega), h.senders_eq (by decide), ← hunits] at hsenders

/-! ### The final states -/

section States

variable {n : Nat}

/-- The final state of unit `i` of section `k`: the bits, the carry, the gates that carry out, and
the bit of the sum. -/
def chainState (x y : BitVec n) (k i : Nat) : Bool :=
  let a := x.getLsbD k
  let b := y.getLsbD k
  let carry := BitVec.carry k x y false
  match i with
  | 0 => a
  | 1 => b
  | 2 => carry
  | 3 => a && carry
  | 4 => a && b
  | 5 => b && carry
  | _ => a ^^ (b ^^ carry)

/-- The rank of unit `i` of section `k`: every carry comes after the gates that carry to it. -/
def chainRank (k i : Nat) : Nat :=
  match i with
  | 0 => 0
  | 1 => 0
  | 2 => 2 * k
  | _ => 2 * k + 1

/-- The words that drive the adder. -/
def addends (x y : BitVec n) : Keyed Nat := [("a", x.toNat), ("b", y.toNat)]

/-- A word behind whose places stand the units `r` of the sections drives these units only. -/
theorem driven_stride {s : Slot} {k i r : Nat} (hs : s.IsRow n fun x => [((7 * x + r : Nat) : Int)])
    (hr : r < 7) (hk : k < n) (hi : i < 7) (w : Nat) :
    (s.ids.items.flatMap fun item =>
      List.replicate (item.2.count ((7 * k + i : Nat) : Int)) (w.testBit item.1.x.toNat))
      = if i = r then [w.testBit k] else [] := by
  have hcount : ∀ x < n, [((7 * x + r : Nat) : Int)].count ((7 * k + i : Nat) : Int)
      = if x = k ∧ i = r then 1 else 0 := by
    intro x _
    rw [List.count_singleton]
    simp only [beq_iff_eq]
    congr 1
    rw [eq_iff_iff]
    omega
  rw [hs.driven_eq_ite w hcount]
  simp only [hk, true_and]

namespace IsChain

variable {c : Circuit} {k i : Nat}

/-- The gates for the bits are driven by them, and no other gate is driven. -/
theorem driven_eq (h : IsChain c n) (x y : BitVec n) (hk : k < n) (hi : i < 7) :
    c.driven (addends x y) (7 * k + i)
      = (if i = 0 then [x.getLsbD k] else []) ++ if i = 1 then [y.getLsbD k] else [] := by
  obtain ⟨first, second, hinputs, ⟨ha, hfirst⟩, hb, hsecond⟩ := h.inputs
  have hwordA : Keyed.find? first.name (addends x y) = some x.toNat := by rw [ha]; rfl
  have hwordB : Keyed.find? second.name (addends x y) = some y.toNat := by rw [hb]; rfl
  simp only [Circuit.driven, hinputs, List.flatMap_cons, List.flatMap_nil, hwordA, hwordB,
    List.append_nil]
  rw [driven_stride hfirst (by decide) hk hi, driven_stride hsecond (by decide) hk hi]
  rfl

/-- The carry of a later section comes from the section before it. -/
theorem follows_carry (h : IsChain c n) (x y : BitVec n) (hk : k + 1 < n) :
    c.Follows (addends x y) (Circuit.blockwise 7 chainRank)
      (Circuit.blockwise 7 (chainState x y)) (7 * (k + 1) + 2) := by
  have htwo : 2 < 7 := by decide
  have hlt : ∀ j ∈ [3, 4, 5], j < 7 := by decide
  refine ⟨.or, [3, 4, 5].map fun j => 7 * k + j, h.part_eq (k + 1) hk 2 htwo,
    h.senders_carry k hk, ?_, ?_⟩
  · intro j hj
    obtain ⟨r, hr, rfl⟩ := List.mem_map.1 hj
    rw [Circuit.blockwise_eq _ _ (hlt r hr), Circuit.blockwise_eq _ _ htwo]
    simp only [List.mem_cons, List.not_mem_nil, or_false] at hr
    rcases hr with rfl | rfl | rfl <;> (simp only [chainRank]; omega)
  · rw [Circuit.map_blockwise _ _ hlt, h.driven_eq x y hk htwo, Circuit.blockwise_eq _ _ htwo]
    show GateMode.output .or (([_, _, _] : List Bool) : Multiset Bool)
      = BitVec.carry (k + 1) x y false
    rw [GateMode.output_or_triple]
    exact carry_succ_or x y false k

/-- All other gates are sent to by gates of their own section. -/
theorem follows_own (h : IsChain c n) (x y : BitVec n) (hk : k < n) (hi : i < 7)
    (hown : i ≠ 2 ∨ k = 0) :
    c.Follows (addends x y) (Circuit.blockwise 7 chainRank)
      (Circuit.blockwise 7 (chainState x y)) (7 * k + i) := by
  have hcases : i = 0 ∨ i = 1 ∨ i = 2 ∨ i = 3 ∨ i = 4 ∨ i = 5 ∨ i = 6 := by omega
  have hlower : ∀ j ∈ sectionSenders.getD i [], j < 7 ∧ chainRank k j < chainRank k i := by
    obtain rfl | rfl | rfl | rfl | rfl | rfl | rfl := hcases
    all_goals simp [sectionSenders, chainRank]
  have hlt : ∀ j ∈ sectionSenders.getD i [], j < 7 := fun j hj => (hlower j hj).1
  have hranks : ∀ j ∈ (sectionSenders.getD i []).map (fun j => 7 * k + j),
      Circuit.blockwise 7 chainRank j < Circuit.blockwise 7 chainRank (7 * k + i) := by
    intro j hj
    obtain ⟨r, hr, rfl⟩ := List.mem_map.1 hj
    rw [Circuit.blockwise_eq _ _ (hlt r hr), Circuit.blockwise_eq _ _ hi]
    exact (hlower r hr).2
  have hgate : ∃ mode, sectionGates[i]? = some mode ∧ mode.output
      (((sectionSenders.getD i []).map (chainState x y k) ++ c.driven (addends x y) (7 * k + i) :
        List Bool) : Multiset Bool) = chainState x y k i := by
    rw [h.driven_eq x y hk hi]
    obtain rfl | rfl | rfl | rfl | rfl | rfl | rfl := hcases
    · exact ⟨.or, rfl, GateMode.output_or_singleton _⟩
    · exact ⟨.or, rfl, GateMode.output_or_singleton _⟩
    · -- nothing carries to the first section
      obtain rfl : k = 0 := by omega
      exact ⟨.or, rfl, (BitVec.carry_zero).symm⟩
    · exact ⟨.and, rfl, GateMode.output_and_pair _ _⟩
    · exact ⟨.and, rfl, GateMode.output_and_pair _ _⟩
    · exact ⟨.and, rfl, GateMode.output_and_pair _ _⟩
    · exact ⟨.xor, rfl, GateMode.output_xor_triple _ _ _⟩
  obtain ⟨mode, hmode, houtput⟩ := hgate
  refine ⟨mode, _, ?_, h.senders_own k hk i hi hown, hranks, ?_⟩
  · rw [h.part_eq k hk i hi, hmode]
    rfl
  · rw [Circuit.map_blockwise _ _ hlt, Circuit.blockwise_eq _ _ hi, houtput]

/-- Every gate of the adder follows the final states. -/
theorem follows (h : IsChain c n) (x y : BitVec n) (hk : k < n) (hi : i < 7) :
    c.Follows (addends x y) (Circuit.blockwise 7 chainRank)
      (Circuit.blockwise 7 (chainState x y)) (7 * k + i) := by
  by_cases hcarry : i = 2 ∧ 0 < k
  · obtain ⟨rfl, hpos⟩ := hcarry
    obtain ⟨k, rfl⟩ : ∃ l, k = l + 1 := ⟨k - 1, by omega⟩
    exact h.follows_carry x y hk
  · exact h.follows_own x y hk hi (by omega)

/-- The adder settles after two ticks for each bit, and then shows the sum. -/
theorem settles (h : IsChain c n) (x y : BitVec n) :
    c.SettledAt (addends x y) (2 * n)
      ∧ c.numbers (c.states (addends x y) (2 * n)) = [("_", (x + y).toNat)] := by
  have hrank : ∀ k < n, ∀ i < 7, chainRank k i < 2 * n := by
    intro k hk i _
    rw [chainRank.eq_def]
    split <;> omega
  obtain ⟨hsettled, hstates⟩ := Circuit.settledAt_of_blocks h.length_units
    (fun k hk i hi => h.follows x y hk hi) hrank
  refine ⟨hsettled, ?_⟩
  obtain ⟨sum, houtputs, hname, hsum⟩ := h.outputs
  have hbits : ∀ z < n, ([((7 * z + 6 : Nat) : Int)].any fun i =>
      c.states (addends x y) (2 * n) i.toNat) = (x + y).toNat.testBit z := by
    intro z hz
    simp only [List.any_cons, List.any_nil, Bool.or_false, Int.toNat_natCast,
      hstates z hz 6 (by decide), chainState]
    exact (BitVec.getLsbD_add hz x y).symm
  rw [Circuit.numbers, houtputs, List.map_cons, List.map_nil, hname, hsum.number_eq hbits,
    Nat.mod_eq_of_lt (x + y).isLt]

end IsChain

end States

/-- **The adder adds, for every width**: it is compiled with nothing to report, and whatever words
drive its inputs, it settles and shows their sum. -/
theorem adder_adds (n : Nat) (hn : 1 ≤ n) :
    ∃ c, Preset.adder.make [("word_size", .int n)] .standard = .ok (c, [])
      ∧ c.units.length = 7 * n
      ∧ ∀ a b, a < 2 ^ n → b < 2 ^ n → ∃ t, c.SettledAt [("a", a), ("b", b)] t
        ∧ c.numbers (c.states [("a", a), ("b", b)] t) = [("_", (a + b) % 2 ^ n)] := by
  obtain ⟨c, hmade, h⟩ := exists_adder n
  refine ⟨c, ?_, h.length_units, fun a b ha hb => ?_⟩
  · exact Fault.bind_eq_ok_iff.2
      ⟨(), Preset.checkWordSize_eq_ok hn, Fault.bind_eq_ok_iff.2 ⟨n, rfl, hmade⟩⟩
  · obtain ⟨hsettled, hsum⟩ := h.settles (BitVec.ofNatLT a ha) (BitVec.ofNatLT b hb)
    refine ⟨2 * n, hsettled, hsum.trans ?_⟩
    rw [BitVec.toNat_add, BitVec.toNat_ofNatLT, BitVec.toNat_ofNatLT]

/-- The sum of two bytes, without the carry. -/
theorem adder_adds_bytes :
    ∃ c, Preset.adder.make [("word_size", .int 8)] .standard = .ok (c, [])
      ∧ c.units.length = 56
      ∧ ∃ t, c.SettledAt [("a", 200), ("b", 100)] t
        ∧ c.numbers (c.states [("a", 200), ("b", 100)] t) = [("_", 44)] := by
  obtain ⟨c, hmade, hlength, hadds⟩ := adder_adds 8 (by decide)
  exact ⟨c, hmade, hlength, hadds 200 100 (by decide) (by decide)⟩

end Arithmetic

end Breadboard
