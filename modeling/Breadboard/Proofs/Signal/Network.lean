import Breadboard.Circuit.Basic
import Mathlib.Data.Multiset.Defs

/-!
**Signals in a circuit.**

A circuit runs in ticks.  At every tick all units take on a new state at once, by a rule that sees
the part of the unit, its state, the states of the units that send to it, and the values from
outside at the points of the input slots that address it.

Main definitions:

* `Rule` — how a unit takes on its next state;
* `Circuit.senders`, `Circuit.addresses` — the units and the input points that reach a unit;
* `Circuit.run` — the states after a number of ticks;
* `Circuit.readings` — the states behind every point of every output slot;
* `Circuit.Embeds` — a circuit that holds some units of another one under new numbers.

Main results:

* `Circuit.Embeds.run_eq` — **the units that a circuit holds of another one run as they do there**;
* `Circuit.Embeds.readings_eq` — and its output slots read the same.
-/

set_option autoImplicit false
set_option relaxedAutoImplicit false

namespace Breadboard

universe u v

/-- How a unit takes on its next state: by its part, its state, the states of the units that send to
it, each as often as it does, and the values of the input points that address it, each with the
number of times it does. -/
abbrev Rule (σ : Type u) (ν : Type v) := Part → σ → Multiset σ → List (ν × Nat) → σ

namespace Circuit

variable {σ : Type u} {ν : Type v}

/-! ### Who reaches a unit -/

/-- The units that send to a unit, each as often as it does. -/
def senders (units : List Element) (unit : Nat) : List Nat :=
  units.zipIdx.flatMap fun u => List.replicate (u.1.wires.count (unit : Int)) u.2

/-- The points of input slots that address a unit, each with the number of its slot and the number
of times it does. -/
def addresses (inputs : List Slot) (unit : Nat) : List ((Nat × Point) × Nat) :=
  inputs.zipIdx.flatMap fun s => s.1.ids.items.filterMap fun item =>
    if item.2.count (unit : Int) = 0 then none
    else some ((s.2, item.1), item.2.count (unit : Int))

theorem mem_senders {units : List Element} {i j : Nat} :
    i ∈ senders units j ↔ ∃ e, units[i]? = some e ∧ (j : Int) ∈ e.wires := by
  simp only [senders, List.mem_flatMap, List.mem_replicate, Prod.exists,
    List.mem_zipIdx_iff_getElem?]
  constructor
  · rintro ⟨e, k, he, hne, rfl⟩
    exact ⟨e, he, List.count_pos_iff.1 (Nat.pos_of_ne_zero hne)⟩
  · rintro ⟨e, he, hmem⟩
    exact ⟨e, i, he, Nat.ne_of_gt (List.count_pos_iff.2 hmem), rfl⟩

/-! ### Running -/

/-- The states after one tick.  The values from outside are given by the number of an input slot and
a point of it; where there is no unit, nothing changes. -/
def tick (rule : Rule σ ν) (c : Circuit) (values : Nat → Point → ν) (s : Nat → σ)
    (unit : Nat) : σ :=
  match c.units[unit]? with
  | some e => rule e.part (s unit) (((senders c.units unit).map s : List σ) : Multiset σ)
      ((addresses c.inputs unit).map fun a => (values a.1.1 a.1.2, a.2))
  | none => s unit

/-- The states after a number of ticks, from given states, with values from outside at each tick. -/
def run (rule : Rule σ ν) (c : Circuit) (values : Nat → Nat → Point → ν) (init : Nat → σ) :
    Nat → Nat → σ
  | 0 => init
  | t + 1 => tick rule c (values t) (run rule c values init t)

/-- The units behind every point of given slots. -/
def shown (outputs : List Slot) : List (List (Point × List Nat)) :=
  outputs.map fun s => s.ids.items.map fun item => (item.1, item.2.map Int.toNat)

/-- The states behind every point of every output slot. -/
def readings (c : Circuit) (s : Nat → σ) : List (List (Point × List σ)) :=
  (shown c.outputs).map fun slot => slot.map fun item => (item.1, item.2.map s)

/-! ### Circuits that hold units of another one -/

/-- The kept units of `c` stand in `c'` under new numbers.  What reaches a kept unit is kept, and
the outputs show kept units only. -/
structure Embeds (kept : Nat → Prop) (number : Nat → Nat) (c c' : Circuit) : Prop where
  part : ∀ i, kept i →
    (c'.units[number i]?).map (fun e => e.part) = (c.units[i]?).map fun e => e.part
  kept_of_mem_senders : ∀ j, kept j → ∀ i ∈ senders c.units j, kept i
  senders : ∀ j, kept j → senders c'.units (number j) = (senders c.units j).map number
  addresses : ∀ j, kept j → addresses c'.inputs (number j) = addresses c.inputs j
  kept_of_mem_shown : ∀ slot ∈ shown c.outputs, ∀ item ∈ slot, ∀ i ∈ item.2, kept i
  shown : shown c'.outputs
    = (shown c.outputs).map fun slot => slot.map fun item => (item.1, item.2.map number)

namespace Embeds

variable {kept : Nat → Prop} {number : Nat → Nat} {c c' : Circuit}

/-- States that agree before a tick agree after it. -/
theorem tick_eq (h : Embeds kept number c c') (rule : Rule σ ν) (values : Nat → Point → ν)
    {s s' : Nat → σ} (hs : ∀ i, kept i → s' (number i) = s i) {i : Nat} (hi : kept i) :
    tick rule c' values s' (number i) = tick rule c values s i := by
  have hsenders : (Circuit.senders c'.units (number i)).map s'
      = (Circuit.senders c.units i).map s := by
    rw [h.senders i hi, List.map_map]
    exact List.map_congr_left fun k hk => hs k (h.kept_of_mem_senders i hi k hk)
  have hpart := h.part i hi
  unfold tick
  rw [hsenders, h.addresses i hi, hs i hi]
  cases hc : c.units[i]? with
  | none =>
      rw [hc, Option.map_none, Option.map_eq_none_iff] at hpart
      rw [hpart]
  | some e =>
      rw [hc, Option.map_some, Option.map_eq_some_iff] at hpart
      obtain ⟨e', he', hpart⟩ := hpart
      simp only [he', hpart]

/-- **The units that a circuit holds of another one run as they do there.** -/
theorem run_eq (h : Embeds kept number c c') (rule : Rule σ ν) (values : Nat → Nat → Point → ν)
    {init init' : Nat → σ} (hinit : ∀ i, kept i → init' (number i) = init i) (t : Nat) :
    ∀ i, kept i → run rule c' values init' t (number i) = run rule c values init t i := by
  induction t with
  | zero => exact hinit
  | succ t ih =>
      intro i hi
      exact h.tick_eq rule (values t) ih hi

/-- The output slots read the same. -/
theorem readings_eq (h : Embeds kept number c c') {s s' : Nat → σ}
    (hs : ∀ i, kept i → s' (number i) = s i) : readings c' s' = readings c s := by
  rw [readings, readings, h.shown, List.map_map]
  refine List.map_congr_left fun slot hslot => ?_
  rw [Function.comp_apply, List.map_map]
  refine List.map_congr_left fun item hitem => ?_
  rw [Function.comp_apply, List.map_map]
  refine congrArg (Prod.mk item.1) (List.map_congr_left fun i hi => ?_)
  exact hs i (h.kept_of_mem_shown slot hslot item hitem i hi)

end Embeds

end Circuit

end Breadboard
