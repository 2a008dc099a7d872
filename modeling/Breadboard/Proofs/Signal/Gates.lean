import Breadboard.Proofs.Signal.Network
import Breadboard.Proofs.Wiring.Rows
import Mathlib.Algebra.Group.Nat.Defs
import Mathlib.Data.Multiset.AddSub

/-!
**Circuits of gates.**

A gate is on or off.  Words drive the points of input slots, bit `x` the points with that first
coordinate, and all units are off at the beginning.  Where every gate listens to gates of lower rank
only, the circuit settles: the states of a rank are final after as many ticks.

Main definitions:

* `GateMode.output` — what a gate makes of the values of its inputs;
* `Circuit.gateRule` — the rule by which circuits of gates run;
* `Circuit.states` — the states after a number of ticks, with words on the input slots;
* `Circuit.numbers` — the numbers that the output slots show;
* `Circuit.Follows` — a unit follows final states from those of lower rank;
* `Circuit.SettledAt` — no further tick changes the states.

Main results:

* `Circuit.tick_gate` — the next state of a gate, from its senders and from outside;
* `Circuit.states_eq_of_rank` — **where ranks fall along the wires, every state becomes final**;
* `Circuit.settledAt_of_blocks` — the same for units that stand in blocks of one size;
* `Slot.IsRow.number_eq` — the number that a row shows.
-/

set_option autoImplicit false
set_option relaxedAutoImplicit false

namespace Breadboard

/-- What a gate makes of the values of its inputs. -/
def GateMode.output (mode : GateMode) (inputs : Multiset Bool) : Bool :=
  let on := inputs.count true
  match mode with
  | .and => decide (0 < inputs.card) && decide (on = inputs.card)
  | .or => decide (0 < on)
  | .xor => decide (on % 2 = 1)
  | .nand => !(decide (0 < inputs.card) && decide (on = inputs.card))
  | .nor => decide (on = 0)
  | .xnor => decide (on % 2 = 0)

namespace GateMode

theorem output_or_singleton (a : Bool) : output .or (([a] : List Bool) : Multiset Bool) = a := by
  revert a
  decide

theorem output_or_triple (a b c : Bool) :
    output .or (([a, b, c] : List Bool) : Multiset Bool) = (a || b || c) := by
  revert a b c
  decide

theorem output_and_pair (a b : Bool) :
    output .and (([a, b] : List Bool) : Multiset Bool) = (a && b) := by
  revert a b
  decide

theorem output_xor_triple (a b c : Bool) :
    output .xor (([a, b, c] : List Bool) : Multiset Bool) = (a ^^ (b ^^ c)) := by
  revert a b c
  decide

end GateMode

namespace Circuit

/-! ### Running -/

/-- The values of the points that are driven, each as often as the point addresses the unit. -/
def given (points : List (Option Bool × Nat)) : List Bool :=
  points.flatMap fun p => match p.1 with
    | some b => List.replicate p.2 b
    | none => []

/-- The rule by which circuits of gates run. -/
def gateRule : Rule Bool (Option Bool) := fun part s sent points =>
  match part with
  | .gate mode => mode.output (sent + (given points : Multiset Bool))
  | _ => s

/-- The values of the points of input slots: the bits of the words under the names of the slots. -/
def drive (c : Circuit) (words : Keyed Nat) (slot : Nat) (p : Point) : Option Bool :=
  (c.inputs[slot]?).bind fun s => (Keyed.find? s.name words).map fun w => w.testBit p.x.toNat

/-- The states after a number of ticks, beginning with all units off. -/
def states (c : Circuit) (words : Keyed Nat) : Nat → Nat → Bool :=
  run gateRule c (fun _ => drive c words) fun _ => false

/-- The number that a slot shows: the bits of the points behind which some unit is on. -/
def number (s : Slot) (state : Nat → Bool) : Nat :=
  s.ids.items.foldl (fun sum item =>
    if item.2.any fun i => state i.toNat then sum + 1 <<< item.1.x.toNat else sum) 0

/-- The numbers that the output slots show. -/
def numbers (c : Circuit) (state : Nat → Bool) : Keyed Nat :=
  c.outputs.map fun s => (s.name, number s state)

/-! ### The next state of a gate -/

/-- The bits of the words that reach a unit. -/
def driven (c : Circuit) (words : Keyed Nat) (unit : Nat) : List Bool :=
  c.inputs.flatMap fun s => match Keyed.find? s.name words with
    | some w => s.ids.items.flatMap fun item =>
        List.replicate (item.2.count (unit : Int)) (w.testBit item.1.x.toNat)
    | none => []

theorem given_addresses (c : Circuit) (words : Keyed Nat) (unit : Nat) :
    given ((addresses c.inputs unit).map fun a => (drive c words a.1.1 a.1.2, a.2))
      = driven c words unit := by
  have hfst : c.inputs.zipIdx.map Prod.fst = c.inputs := by simp
  rw [given, List.flatMap_map, addresses, List.flatMap_assoc, driven]
  conv_rhs => rw [← hfst, List.flatMap_map]
  refine List.flatMap_congr fun s hs => ?_
  have hdrive : ∀ p, drive c words s.2 p
      = (Keyed.find? s.1.name words).map fun w => w.testBit p.x.toNat := by
    intro p
    rw [drive, List.mem_zipIdx_iff_getElem?.1 hs, Option.bind_some]
  rw [List.filterMap_eq_flatMap_toList, List.flatMap_assoc]
  cases hword : Keyed.find? s.1.name words with
  | none =>
      refine List.flatMap_eq_nil_iff.2 fun item _ => ?_
      by_cases hzero : item.2.count (unit : Int) = 0
      · simp [hzero]
      · simp [hzero, hdrive, hword]
  | some w =>
      refine List.flatMap_congr fun item _ => ?_
      by_cases hzero : item.2.count (unit : Int) = 0
      · simp [hzero]
      · simp [hzero, hdrive, hword]

/-- The next state of a gate, from its senders and from outside; their order does not matter. -/
theorem tick_gate {c : Circuit} (words : Keyed Nat) (s : Nat → Bool) {unit : Nat} {mode : GateMode}
    {l : List Nat} (hpart : (c.units[unit]?).map (fun e => e.part) = some (.gate mode))
    (hsenders : (senders c.units unit).Perm l) :
    tick gateRule c (drive c words) s unit
      = mode.output ((l.map s ++ driven c words unit : List Bool) : Multiset Bool) := by
  obtain ⟨e, he, hpart⟩ := Option.map_eq_some_iff.1 hpart
  have hsent : ((l.map s : List Bool) : Multiset Bool)
      = ((senders c.units unit).map s : List Bool) :=
    Multiset.coe_eq_coe.2 (hsenders.map s).symm
  simp only [tick, he, hpart, gateRule, given_addresses, ← Multiset.coe_add, hsent]

/-- Where there is no unit, nothing is ever on. -/
theorem states_eq_false {c : Circuit} (words : Keyed Nat) {j : Nat} (hj : c.units.length ≤ j)
    (t : Nat) : states c words t j = false := by
  have hnone : c.units[j]? = none := List.getElem?_eq_none_iff.2 hj
  induction t with
  | zero => rfl
  | succ t ih =>
      have hstep : states c words (t + 1) j = states c words t j := by
        simp only [states, run, tick, hnone]
      rw [hstep, ih]

/-! ### Settling -/

/-- A unit is a gate that listens to units of lower ranks only, and if these have the states `v` and
the words drive the inputs, then its next state is `v` as well. -/
def Follows (c : Circuit) (words : Keyed Nat) (rank : Nat → Nat) (v : Nat → Bool)
    (unit : Nat) : Prop :=
  ∃ mode l, (c.units[unit]?).map (fun e => e.part) = some (.gate mode)
    ∧ (senders c.units unit).Perm l ∧ (∀ i ∈ l, rank i < rank unit)
    ∧ mode.output ((l.map v ++ driven c words unit : List Bool) : Multiset Bool) = v unit

/-- No further tick changes the states. -/
def SettledAt (c : Circuit) (words : Keyed Nat) (t : Nat) : Prop :=
  ∀ k, states c words (t + k) = states c words t

section Ranks

variable {c : Circuit} {words : Keyed Nat} {v : Nat → Bool} {rank : Nat → Nat}

/-- **Where ranks fall along the wires, every state becomes final**, after more ticks than the rank
of the unit. -/
theorem states_eq_of_rank (h : ∀ j < c.units.length, Follows c words rank v j) (t : Nat) :
    ∀ j < c.units.length, rank j < t → states c words t j = v j := by
  induction t with
  | zero => exact fun j _ hlt => absurd hlt (Nat.not_lt_zero _)
  | succ t ih =>
      intro j hj hlt
      obtain ⟨mode, l, hpart, hsenders, hranks, hv⟩ := h j hj
      have hsent : l.map (states c words t) = l.map v := by
        refine List.map_congr_left fun i hi => ?_
        -- a sender has a lower rank, so it is final one tick earlier
        obtain ⟨e, he, _⟩ := mem_senders.1 (hsenders.mem_iff.2 hi)
        have hrank := hranks i hi
        exact ih i (List.getElem?_eq_some_iff.1 he).1 (by omega)
      calc states c words (t + 1) j
          = mode.output ((l.map (states c words t) ++ driven c words j : List Bool) :
              Multiset Bool) := tick_gate words _ hpart hsenders
        _ = v j := by rw [hsent, hv]

/-- A circuit has settled after as many ticks as there are ranks. -/
theorem settledAt_of_rank (h : ∀ j < c.units.length, Follows c words rank v j) {t : Nat}
    (ht : ∀ j < c.units.length, rank j < t) : c.SettledAt words t := by
  intro k
  funext j
  rcases Nat.lt_or_ge j c.units.length with hj | hj
  · have hlt := ht j hj
    rw [states_eq_of_rank h (t + k) j hj (by omega), states_eq_of_rank h t j hj hlt]
  · rw [states_eq_false words hj, states_eq_false words hj]

end Ranks

/-- What is given for each place of blocks of one size, by the number among all units. -/
def blockwise {α : Type} (size : Nat) (w : Nat → Nat → α) (unit : Nat) : α :=
  w (unit / size) (unit % size)

theorem blockwise_eq {α : Type} {size : Nat} (w : Nat → Nat → α) (k : Nat) {i : Nat}
    (hi : i < size) : blockwise size w (size * k + i) = w k i := by
  rw [blockwise, Nat.mul_add_div (by omega), Nat.mul_add_mod, Nat.div_eq_of_lt hi,
    Nat.mod_eq_of_lt hi, Nat.add_zero]

theorem map_blockwise {α : Type} {size : Nat} (w : Nat → Nat → α) (k : Nat) {l : List Nat}
    (hl : ∀ i ∈ l, i < size) :
    (l.map fun i => size * k + i).map (blockwise size w) = l.map (w k) := by
  rw [List.map_map]
  exact List.map_congr_left fun i hi => blockwise_eq w k (hl i hi)

/-- Where the units stand in blocks of one size, every place has its final state after as many ticks
as there are ranks. -/
theorem settledAt_of_blocks {c : Circuit} {words : Keyed Nat} {size count t : Nat}
    {rank : Nat → Nat → Nat} {v : Nat → Nat → Bool} (hlength : c.units.length = size * count)
    (h : ∀ k < count, ∀ i < size,
      Follows c words (blockwise size rank) (blockwise size v) (size * k + i))
    (ht : ∀ k < count, ∀ i < size, rank k i < t) :
    c.SettledAt words t
      ∧ ∀ k < count, ∀ i < size, c.states words t (size * k + i) = v k i := by
  have hplace : ∀ j < c.units.length, j / size < count ∧ j % size < size := by
    intro j hj
    rw [hlength] at hj
    have hsize : 0 < size := Nat.pos_of_ne_zero fun e => by
      rw [e, Nat.zero_mul] at hj
      exact Nat.not_lt_zero j hj
    exact ⟨Nat.div_lt_of_lt_mul hj, Nat.mod_lt j hsize⟩
  -- a unit is given by its number, a place by its block and where it stands there
  have hfollows : ∀ j < c.units.length,
      Follows c words (blockwise size rank) (blockwise size v) j := by
    intro j hj
    obtain ⟨hk, hi⟩ := hplace j hj
    rw [← Nat.div_add_mod j size]
    exact h _ hk _ hi
  have hrank : ∀ j < c.units.length, blockwise size rank j < t := by
    intro j hj
    obtain ⟨hk, hi⟩ := hplace j hj
    exact ht _ hk _ hi
  refine ⟨settledAt_of_rank hfollows hrank, fun k hk i hi => ?_⟩
  have hj : size * k + i < c.units.length := by
    rw [hlength]
    calc size * k + i < size * k + size := Nat.add_lt_add_left hi _
      _ = size * (k + 1) := (Nat.mul_succ size k).symm
      _ ≤ size * count := Nat.mul_le_mul_left size hk
  rw [states_eq_of_rank hfollows t _ hj (hrank _ hj), blockwise_eq v k hi]

end Circuit

/-! ### Rows as words -/

/-- The bits of a number below a place make up the number, up to that place. -/
theorem foldl_testBit (w n : Nat) :
    (List.range n).foldl (fun sum x => if w.testBit x = true then sum + 1 <<< x else sum) 0
      = w % 2 ^ n := by
  induction n with
  | zero => simp [Nat.mod_one]
  | succ n ih =>
      rw [List.range_succ, List.foldl_append, ih, List.foldl_cons, List.foldl_nil,
        Nat.mod_pow_succ, Nat.testBit_eq_decide_div_mod_eq, Nat.shiftLeft_eq, Nat.one_mul]
      rcases Nat.mod_two_eq_zero_or_one (w / 2 ^ n) with h | h <;> simp [h]

namespace Slot.IsRow

variable {s : Slot} {n : Nat} {f : Nat → List Int}

/-- The bits of a word that reach a unit behind a row. -/
theorem driven_eq (h : s.IsRow n f) (w unit : Nat) :
    (s.ids.items.flatMap fun item =>
      List.replicate (item.2.count (unit : Int)) (w.testBit item.1.x.toNat))
      = (List.range n).flatMap fun x =>
        List.replicate ((f x).count (unit : Int)) (w.testBit x) := by
  rw [h.items_eq, List.flatMap_map]
  rfl

/-- A unit that one place addresses once, or none, is given its bit, or nothing. -/
theorem driven_eq_ite (h : s.IsRow n f) (w : Nat) {unit i : Nat} {reached : Prop}
    [Decidable reached]
    (hcount : ∀ y < n, (f y).count (unit : Int) = if y = i ∧ reached then 1 else 0) :
    (s.ids.items.flatMap fun item =>
      List.replicate (item.2.count (unit : Int)) (w.testBit item.1.x.toNat))
      = if i < n ∧ reached then [w.testBit i] else [] := by
  rw [h.driven_eq]
  by_cases hi : i < n ∧ reached
  · rw [if_pos hi, Row.flatMap_range_eq hi.1, hcount i hi.1, if_pos ⟨rfl, hi.2⟩, List.replicate_one]
    intro y hy hne
    rw [hcount y hy, if_neg fun h => hne h.1, List.replicate_zero]
  · rw [if_neg hi, List.flatMap_eq_nil_iff]
    intro y hy
    have hy := List.mem_range.1 hy
    have hno : ¬(y = i ∧ reached) := fun h => hi ⟨h.1 ▸ hy, h.2⟩
    rw [hcount y hy, if_neg hno, List.replicate_zero]

/-- The number that a row shows, if its places show the bits of a word. -/
theorem number_eq (h : s.IsRow n f) {state : Nat → Bool} {w : Nat}
    (hbits : ∀ x < n, (f x).any (fun i => state i.toNat) = w.testBit x) :
    Circuit.number s state = w % 2 ^ n := by
  rw [Circuit.number, h.items_eq, List.foldl_map, ← foldl_testBit]
  refine List.foldl_ext _ _ _ fun sum x hx => ?_
  simp only [hbits x (List.mem_range.1 hx), Int.toNat_natCast]

end Slot.IsRow

end Breadboard
