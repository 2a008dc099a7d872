import Breadboard.Preset.Arithmetic
import Breadboard.Proofs.Signal.Gates
import Breadboard.Proofs.Signal.Sources

/-!
**Rows of gates.**

The circuits for words are made of rows of gates, one for each bit.  A row is made as long as there
can be an array over its places, and then it can be put into any assembly.  In a design of rows of
`n` gates, unit `n k + x` is place `x` of row `k`.

Main definitions:

* `Arithmetic.IsGateRow` — a row of gates that are not connected;
* `Arithmetic.IsGates` — gates behind the points of the default slots, all that designs need;
* `Arithmetic.lane` — connections between units that stand one behind the other;
* `Arithmetic.rungs` — connections between the places of two rows.

Main results:

* `Arithmetic.exists_row`, `Arithmetic.row_eq_error` — a row is made if it has fewer than `2 ^ 60`
  places, and only then;
* `Arithmetic.IsGateRow.embeddable` — a row can be put into an assembly;
* `Arithmetic.sendersAmong_lane`, `Arithmetic.sendersAmong_rungs` — **who sends to a unit over a
  lane, and over the connections of two rows**;
* `Arithmetic.driven_rows` — the places that a word drives.
-/

set_option autoImplicit false
set_option relaxedAutoImplicit false

namespace Breadboard

namespace Arithmetic

/-! ### Rows of gates -/

/-- A row of `n` gates of one mode, turned in place. -/
structure IsGateRow (c : Circuit) (n : Nat) (mode : GateMode) (turn : Turn) : Prop where
  units : c.units = (List.range n).map fun (x : Nat) => ⟨.ofPart (.gate mode), ⟨x, 0, 0⟩, turn⟩
  inputs : c.inputs = [Circuit.cubeSlot (SlotPlan.wordSize n) Circuit.cubeKind]
  outputs : c.outputs = [Circuit.cubeSlot (SlotPlan.wordSize n) Circuit.cubeKind]

namespace IsGateRow

variable {c : Circuit} {n : Nat} {mode : GateMode} {turn : Turn}

theorem length_units (h : IsGateRow c n mode turn) : c.units.length = n := by
  rw [h.units, List.length_map, List.length_range]

theorem slots_eq (h : IsGateRow c n mode turn) (side : Side) :
    c.slots side = [Circuit.cubeSlot (SlotPlan.wordSize n) Circuit.cubeKind] := by
  cases side
  · exact h.inputs
  · exact h.outputs

theorem exists_of_mem (h : IsGateRow c n mode turn) {e : Element} (he : e ∈ c.units) :
    ∃ x : Nat, x < n ∧ e = ⟨.ofPart (.gate mode), ⟨x, 0, 0⟩, turn⟩ := by
  rw [h.units] at he
  obtain ⟨x, hx, rfl⟩ := List.mem_map.1 he
  exact ⟨x, List.mem_range.1 hx, rfl⟩

theorem part_eq (h : IsGateRow c n mode turn) {x : Nat} (hx : x < n) :
    (c.units[x]?).map (fun e => e.part) = some (.gate mode) := by
  rw [h.units, List.getElem?_map, List.getElem?_range hx]
  rfl

/-- The gates of a row are not connected. -/
theorem senders_eq_nil (h : IsGateRow c n mode turn) (i : Nat) :
    Circuit.senders c.units i = [] := by
  refine List.flatMap_eq_nil_iff.2 fun u hu => ?_
  obtain ⟨x, _, hunit⟩ := h.exists_of_mem (List.fst_mem_of_mem_zipIdx hu)
  rw [hunit]
  rfl

theorem corners_of_mem (h : IsGateRow c n mode turn) {e : Element} (he : e ∈ c.units) :
    e.corners = .ok (e.pos, e.pos) := by
  obtain ⟨x, _, rfl⟩ := h.exists_of_mem he
  exact Element.corners_of_size_one rfl

/-- The bounding box of a row begins at its first gate. -/
theorem exists_boundingBox (h : IsGateRow c n mode turn) (hn : 1 ≤ n) :
    ∃ size, Circuit.boundingBox c.units = .ok (.origin, size) := by
  obtain ⟨⟨start, size⟩, hbox⟩ :=
    Circuit.boundingBox_isOk_iff.2 fun e he => ⟨_, h.corners_of_mem he⟩
  have hfirst : (⟨.ofPart (.gate mode), ⟨(0 : Nat), 0, 0⟩, turn⟩ : Element) ∈ c.units := by
    rw [h.units]
    exact List.mem_map.2 ⟨0, List.mem_range.2 hn, rfl⟩
  have hne : c.units ≠ [] := fun e => by rw [e] at hfirst; cases hfirst
  have hupper : start ≤ ⟨(0 : Nat), 0, 0⟩ := Circuit.start_le hbox hfirst
  have hlower : Point.origin ≤ start := by
    refine Circuit.le_start hbox hne fun e he k hk => ?_
    obtain ⟨x, _, rfl⟩ := h.exists_of_mem he
    rw [h.corners_of_mem he] at hk
    cases hk
    simp only [Point.le_def, Point.origin]
    omega
  have hstart : start = .origin := by
    obtain ⟨a, b, c⟩ := start
    simp only [Point.le_def, Point.origin, Point.mk.injEq] at hupper hlower ⊢
    omega
  exact ⟨size, by rw [hbox, hstart]⟩

theorem inRange (h : IsGateRow c n mode turn) : c.SlotsInRange := by
  intro side s hs
  rw [h.slots_eq side, List.mem_singleton] at hs
  rw [hs, h.length_units]
  refine (Circuit.isRow_cubeSlot n _).inRange fun x hx i hi => ?_
  rw [List.mem_singleton] at hi
  omega

/-- A row can be put into an assembly, as its places fit a word. -/
theorem embeddable (h : IsGateRow c n mode turn) (hn : n < 2 ^ 60) : c.Embeddable where
  slots := h.inRange
  wires e he w hw := by
    obtain ⟨x, _, rfl⟩ := h.exists_of_mem he
    cases hw
  cells e he := by
    obtain ⟨x, _, rfl⟩ := h.exists_of_mem he
    rfl
  near e he := by
    obtain ⟨x, hx, rfl⟩ := h.exists_of_mem he
    obtain ⟨size, hbox⟩ := h.exists_boundingBox (by omega)
    rw [Circuit.corner_eq hbox]
    simp only [Reading.isCount, Point.origin, Point.sub_x, Point.sub_y, Point.sub_z]
    omega

/-- The slots of a row address its places. -/
theorem findSlot?_eq (h : IsGateRow c n mode turn) (side : Side) :
    Circuit.findSlot? defaultSlot (c.slots side)
      = some (Circuit.cubeSlot (SlotPlan.wordSize n) Circuit.cubeKind) := by
  rw [h.slots_eq side]
  rfl

end IsGateRow

/-- A row of gates is made, if there can be an array over its places. -/
theorem exists_row {n : Nat} (hn : n < 2 ^ 60) (mode : GateMode) (turn : Turn) :
    ∃ c, row n mode turn = .ok c ∧ IsGateRow c n mode turn := by
  have hbox : (SlotPlan.wordSize n).extents.box
      = (List.range n).map fun (x : Nat) => (⟨x, 0, 0⟩ : Point) := Point.box_row n
  have hslots : Circuit.cubeSlots (SlotPlan.wordSize n) Circuit.cubeKind true
      = .ok [Circuit.cubeSlot (SlotPlan.wordSize n) Circuit.cubeKind] := by
    rw [Circuit.cubeSlots, if_pos rfl,
      Size.checkArray_eq_ok_iff.2 (SlotPlan.holdable_wordSize_iff.2 hn)]
    rfl
  let units : List Element :=
    (List.range n).map fun (x : Nat) => ⟨.ofPart (.gate mode), ⟨x, 0, 0⟩, turn⟩
  let slots : List Slot := [Circuit.cubeSlot (SlotPlan.wordSize n) Circuit.cubeKind]
  have hrow (bounds : Point) : IsGateRow ⟨units, slots, slots, bounds⟩ n mode turn :=
    ⟨rfl, rfl, rfl⟩
  have hrange : ∀ s ∈ slots, s.InRange units.length := (hrow .origin).inRange .input
  have hnames : (slots.map Slot.name).Nodup := List.nodup_singleton _
  obtain ⟨bounds, hbuilt⟩ := Circuit.exists_build hnames hnames hrange hrange
    (Circuit.boundingBox_isOk_iff.2 fun e he => ⟨_, (hrow .origin).corners_of_mem he⟩)
  refine ⟨⟨units, slots, slots, bounds⟩, ?_, hrow bounds⟩
  refine Circuit.cube_eq_ok_iff.2 ⟨_, _, hslots, hslots, ?_⟩
  rw [hbox, List.map_map]
  exact hbuilt

/-- A row that is too long is refused. -/
theorem row_eq_error {n : Nat} (hn : 2 ^ 60 ≤ n) (mode : GateMode) (turn : Turn) :
    row n mode turn = .error (SlotPlan.rowFault n) := by
  have hslots : Circuit.cubeSlots (SlotPlan.wordSize n) Circuit.cubeKind true
      = .error (SlotPlan.rowFault n) := by
    rw [Circuit.cubeSlots, if_pos rfl, SlotPlan.checkArray_wordSize hn]
    rfl
  exact congrArg (· >>= _) hslots

theorem isGateRow_of_row {c : Circuit} {n : Nat} {mode : GateMode} {turn : Turn}
    (h : row n mode turn = .ok c) : IsGateRow c n mode turn := by
  rcases Nat.lt_or_ge n (2 ^ 60) with hn | hn
  · obtain ⟨made, hmade, hrow⟩ := exists_row hn mode turn
    obtain rfl : c = made := Except.ok.inj (h.symm.trans hmade)
    exact hrow
  · rw [row_eq_error hn] at h
    cases h

/-! ### Gates behind the points of a slot -/

/-- Gates of one mode that are not connected, each behind its point of the default slots. -/
structure IsGates (c : Circuit) (n : Nat) (mode : GateMode) : Prop where
  parts : c.units.map (fun e => e.part) = List.replicate n (.gate mode)
  wires : ∀ e ∈ c.units, e.wires = []
  slot : ∀ side, ∃ s, Circuit.findSlot? defaultSlot (c.slots side) = some s
    ∧ s.IsRow n fun x => [(x : Int)]

namespace IsGates

variable {c : Circuit} {n : Nat} {mode : GateMode}

theorem length_units (h : IsGates c n mode) : c.units.length = n := by
  have hlength := congrArg List.length h.parts
  rwa [List.length_map, List.length_replicate] at hlength

theorem part_eq (h : IsGates c n mode) {x : Nat} (hx : x < n) :
    (c.units[x]?).map (fun e => e.part) = some (.gate mode) := by
  rw [← List.getElem?_map, h.parts, List.getElem?_replicate, if_pos hx]

theorem senders_eq_nil (h : IsGates c n mode) (i : Nat) : Circuit.senders c.units i = [] := by
  refine List.flatMap_eq_nil_iff.2 fun u hu => ?_
  rw [h.wires u.1 (List.fst_mem_of_mem_zipIdx hu), List.count_nil, List.replicate_zero]

end IsGates

/-- A row of gates, seen from outside. -/
theorem IsGateRow.isGates {c : Circuit} {n : Nat} {mode : GateMode} {turn : Turn}
    (h : IsGateRow c n mode turn) : IsGates c n mode where
  parts := by
    rw [h.units, List.map_map]
    exact List.map_const' .. |>.trans (by rw [List.length_range])
  wires e he := by
    obtain ⟨x, _, rfl⟩ := h.exists_of_mem he
    rfl
  slot side := ⟨_, h.findSlot?_eq side, Circuit.isRow_cubeSlot n _⟩

/-- A single gate is made, and it can be put into an assembly. -/
theorem exists_gate (mode : GateMode) :
    ∃ c, gate mode = .ok c ∧ IsGates c 1 mode ∧ c.Embeddable := by
  let unit : Element := ⟨.ofPart (.gate mode), .origin, .identity⟩
  let slots : List Slot := [Slot.point defaultSlot defaultKind 0]
  let c : Circuit := ⟨[unit], slots, slots, .one⟩
  have hunit : ∀ e ∈ c.units, e = unit := fun e he => List.mem_singleton.1 he
  have hslots (side : Side) : c.slots side = slots := by cases side <;> rfl
  have hrow : (Slot.point defaultSlot defaultKind 0).IsRow 1 fun x => [(x : Int)] :=
    ⟨rfl, fun x hx => by
      obtain rfl : x = 0 := by omega
      rfl⟩
  have hbox : Circuit.boundingBox c.units = .ok (.origin, .one) := by cases mode <;> rfl
  refine ⟨c, by cases mode <;> rfl, ⟨rfl, fun e he => ?_, fun side => ?_⟩, ⟨?_, ?_, ?_, ?_⟩⟩
  · rw [hunit e he]
    rfl
  · exact ⟨_, by rw [hslots side]; rfl, hrow⟩
  · intro side s hs
    rw [hslots side] at hs
    obtain rfl := List.mem_singleton.1 hs
    refine hrow.inRange fun x hx i hi => ?_
    rw [List.mem_singleton] at hi
    show 0 ≤ i ∧ i < (1 : Nat)
    omega
  · intro e he w hw
    rw [hunit e he] at hw
    cases hw
  · intro e he
    rw [hunit e he]
    rfl
  · intro e he
    rw [hunit e he, Circuit.corner_eq hbox]
    show Reading.isCount (.origin - .origin)
    unfold Reading.isCount
    decide

/-! ### Rows among other rows -/

/-- Connections from `l` units that stand one behind the other to as many others. -/
def lane (a b l : Nat) : List (Int × Int) :=
  (List.range l).map fun (x : Nat) => (((a + x : Nat) : Int), ((b + x : Nat) : Int))

/-- Who sends over a lane to a unit. -/
theorem sendersAmong_lane (a b l j : Nat) :
    Circuit.sendersAmong (lane a b l) j = if b ≤ j ∧ j < b + l then [a + (j - b)] else [] := by
  rw [lane, List.map_eq_flatMap, Circuit.sendersAmong_flatMap]
  simp only [Circuit.sendersAmong_singleton]
  by_cases h : b ≤ j ∧ j < b + l
  · have hy : j - b < l := by omega
    have hback : b + (j - b) = j := by omega
    rw [if_pos h, Row.flatMap_range_eq hy, hback, if_pos rfl]
    intro y _ hne
    rw [if_neg (by omega)]
  · rw [if_neg h, List.flatMap_eq_nil_iff]
    intro y hy
    have hy := List.mem_range.1 hy
    rw [if_neg (by omega)]

/-- A unit of the lane sends to at most one other, and no other unit sends over it. -/
theorem length_receivers_lane (a b l i : Nat) :
    (Assembly.receivers (lane a b l) (i : Int)).length = 0
      ∨ (a ≤ i ∧ i < a + l) ∧ (Assembly.receivers (lane a b l) (i : Int)).length ≤ 1 := by
  have hother : ∀ y < l, y ≠ i - a ∨ i < a → Assembly.receivers
      [(((a + y : Nat) : Int), ((b + y : Nat) : Int))] (i : Int) = [] := by
    intro y _ hne
    rw [Assembly.receivers, List.map_eq_nil_iff, List.filter_eq_nil_iff]
    intro c hc
    rw [List.mem_singleton] at hc
    rw [hc, beq_iff_eq]
    omega
  rw [lane, List.map_eq_flatMap, Assembly.receivers_flatMap]
  by_cases hi : a ≤ i ∧ i < a + l
  · refine .inr ⟨hi, Nat.le_trans
      (Row.length_flatMap_range_le fun y hy hne => hother y hy (.inl hne)) ?_⟩
    rw [Assembly.receivers, List.length_map]
    exact List.length_filter_le _ _
  · refine .inl (List.length_eq_zero_iff.2 (List.flatMap_eq_nil_iff.2 fun y hy => ?_))
    have hy := List.mem_range.1 hy
    exact hother y hy (by omega)

/-- Connections from places of row `k` of rows of `n` units to the places of row `r` that are `d`
further on. -/
def rungs (n k r d l : Nat) : List (Int × Int) :=
  (List.range l).map fun (x : Nat) => (((n * k + x : Nat) : Int), ((n * r + (x + d) : Nat) : Int))

theorem rungs_eq_lane (n k r d l : Nat) : rungs n k r d l = lane (n * k) (n * r + d) l := by
  refine List.map_congr_left fun x _ => ?_
  rw [Nat.add_assoc, Nat.add_comm x d]

/-- A unit is determined by its row and its place. -/
theorem mul_add_inj {n k r x y : Nat} (hx : x < n) (hy : y < n) :
    n * k + x = n * r + y ↔ k = r ∧ x = y := by
  constructor
  · intro h
    have hrow : k = r := by
      have hdiv := congrArg (· / n) h
      have hn : 0 < n := by omega
      simpa [Nat.mul_add_div hn, Nat.div_eq_of_lt hx, Nat.div_eq_of_lt hy] using hdiv
    subst hrow
    exact ⟨rfl, by omega⟩
  · rintro ⟨rfl, rfl⟩
    rfl

section Rungs

variable {n k r d l : Nat}

/-- Who sends over the connections between two rows to a place. -/
theorem sendersAmong_rungs (hfit : l + d ≤ n) {q x : Nat} (hx : x < n) :
    Circuit.sendersAmong (rungs n k r d l) (n * q + x)
      = if q = r ∧ d ≤ x ∧ x < l + d then [n * k + (x - d)] else [] := by
  rw [rungs_eq_lane, sendersAmong_lane]
  by_cases hrow : q = r
  · subst hrow
    have hplace : n * q + x - (n * q + d) = x - d := by omega
    rw [hplace]
    refine if_congr ?_ rfl rfl
    constructor <;> intro h <;> omega
  · -- the other rows end before this one begins, or begin behind its end
    have hapart : n * q + n ≤ n * r ∨ n * r + n ≤ n * q := by
      rcases Nat.lt_or_gt_of_ne hrow with hlt | hgt
      · exact .inl (Nat.mul_succ n q ▸ Nat.mul_le_mul_left n hlt)
      · exact .inr (Nat.mul_succ n r ▸ Nat.mul_le_mul_left n hgt)
    rw [if_neg (by omega), if_neg (fun h => hrow h.1)]

end Rungs

section Driven

variable {n : Nat}

/-- A word whose bits reach the places of some rows drives these places only. -/
theorem driven_rows {s : Slot} {ks : List Nat} {m q i : Nat}
    (hs : s.IsRow m fun x => ks.map fun k => ((n * k + x : Nat) : Int)) (hks : ks.Nodup)
    (hm : m ≤ n) (hi : i < n) (w : Nat) :
    (s.ids.items.flatMap fun item =>
      List.replicate (item.2.count ((n * q + i : Nat) : Int)) (w.testBit item.1.x.toNat))
      = if i < m ∧ q ∈ ks then [w.testBit i] else [] := by
  have hcount : ∀ y < m, (ks.map fun k => ((n * k + y : Nat) : Int)).count
      ((n * q + i : Nat) : Int) = if y = i ∧ q ∈ ks then 1 else 0 := by
    intro y hy
    have hyn : y < n := by omega
    have hnodup : (ks.map fun k => ((n * k + y : Nat) : Int)).Nodup :=
      hks.map fun k r heq => ((mul_add_inj hyn hyn).1 (Int.ofNat_inj.1 heq)).1
    rw [hnodup.count]
    congr 1
    rw [eq_iff_iff, List.mem_map]
    constructor
    · rintro ⟨k, hk, heq⟩
      obtain ⟨rfl, rfl⟩ := (mul_add_inj hyn hi).1 (Int.ofNat_inj.1 heq)
      exact ⟨rfl, hk⟩
    · rintro ⟨rfl, hq⟩
      exact ⟨q, hq, rfl⟩
  exact hs.driven_eq_ite w hcount

end Driven

end Arithmetic

end Breadboard
