import Breadboard.Preset.Cube
import Breadboard.Proofs.Assembly.Flattening

/-!
**Isolation of the circuits of an assembly.**

A compiled assembly is isolated if every connection of a unit stays among the units of its own
circuit or is proposed by a link, from a point of one of the circuit's outputs to a point of an
input.  Links are the lesser danger: the slots of a circuit are checked when it is built, so
whatever a link proposes leads to a unit of the circuit that it names.  The connections that units
bring along are not checked.  They are moved with their units, and one that leads past the last unit
of its circuit leads into the circuit that was added next.

Main definitions:

* `Circuit.Accepted` — circuits as the constructors accept them;
* `Assembly.Proposes` — a link proposes that a unit of a circuit sends to a unit;
* `Assembly.Isolated` — **no connection leaves its circuit without being proposed**.

Main results:

* `Assembly.mem_sent_iff` — what a unit is given is what links propose;
* `Assembly.Proposes.inRange` — what a link proposes leads to a unit;
* `Assembly.compile_isolated_iff` — **a compiled assembly is isolated exactly as far as the
  connections of the units that were added stay in their circuits**;
* `Assembly.not_isolated_stray` — accepted circuits that are not isolated.
-/

set_option autoImplicit false
set_option relaxedAutoImplicit false

namespace Breadboard

/-- Circuits as the constructors accept them: given units and slots, a single device, or a cube of
equal devices. -/
inductive Circuit.Accepted : Circuit → Prop where
  | built {units : List Element} {inputs outputs : List Slot} {c : Circuit}
      (made : build units inputs outputs = .ok c) : Accepted c
  | device {d : Device} {c : Circuit} (made : ofDevice d = .ok c) : Accepted c
  | cube {size : Size} {d : Device} {turn : Turn} {kind : String} {c : Circuit}
      (made : Circuit.cube size d turn kind = .ok c) : Accepted c

/-- The slots of an accepted circuit address its own units. -/
theorem Circuit.Accepted.slotsInRange {c : Circuit} (h : c.Accepted) : c.SlotsInRange := by
  cases h with
  | built made => exact slotsInRange_of_build made
  | device made => exact slotsInRange_of_build made
  | cube made =>
      obtain ⟨_, _, _, _, made⟩ := Circuit.cube_eq_ok_iff.1 made
      exact slotsInRange_of_build made

namespace Assembly

/-- A link proposes that unit `i` of the circuit `name` sends to the unit numbered `w`: it leads
from an output of the circuit to an input, and its wiring pairs a point that addresses the one with
a point that addresses the other. -/
def Proposes (a : Assembly) (name : String) (i : Nat) (w : Int) : Prop :=
  ∃ link ∈ a.links, ∃ source target proposed pair,
    (Path.read defaultSlot link.source).scheme = name
      ∧ (scope a.schemes .output).resolve link.source = .ok source
      ∧ (scope a.schemes .input).resolve link.target = .ok target
      ∧ link.wiring.pairs source.sector.size target.sector.size = .ok proposed
      ∧ pair ∈ Frame.liftPairs source.frame target.frame proposed
      ∧ (i : Int) ∈ source.slot.getPoint pair.1 ∧ w ∈ target.unitsAt pair.2

/-- Every connection of a compiled assembly leads to a unit, and it stays in the circuit of its
sender or is proposed by a link. -/
def Isolated (a : Assembly) (c : Circuit) : Prop :=
  ∀ name circuit, (name, circuit) ∈ a.schemes → ∀ i u, i < circuit.units.length →
    c.units[offset a.schemes name + i]? = some u → ∀ w ∈ u.wires,
      (0 ≤ w ∧ w < c.units.length)
        ∧ ((offset a.schemes name ≤ w ∧ w < offset a.schemes name + circuit.units.length)
          ∨ a.Proposes name i w)

variable {a : Assembly}

/-- **What a unit is given is what links propose.** -/
theorem mem_sent_iff {name : String} {i : Nat} {w : Int} :
    w ∈ a.links.flatMap (sent a.schemes name i) ↔ a.Proposes name i w := by
  rw [List.mem_flatMap]
  refine exists_congr fun link => and_congr_right fun _ => ?_
  unfold sent
  constructor
  · intro h
    split at h
    · rename_i source target hsource htarget
      split at h
      · rename_i proposed hproposed
        obtain ⟨pair, hpair, hw⟩ := List.mem_flatMap.1 h
        unfold sentOver at hw
        split at hw
        · rename_i hname
          obtain ⟨k, hk, hw⟩ := List.mem_flatMap.1 hw
          obtain ⟨hk, hki⟩ := List.mem_filter.1 hk
          rw [beq_iff_eq] at hki
          exact ⟨source, target, proposed, pair, hname, hsource, htarget, hproposed, hpair,
            hki ▸ hk, hw⟩
        · cases hw
      · cases h
    · cases h
  · rintro ⟨source, target, proposed, pair, hname, hsource, htarget, hproposed, hpair, hi, hw⟩
    rw [hsource, htarget]
    simp only [hproposed]
    refine List.mem_flatMap.2 ⟨pair, hpair, ?_⟩
    rw [sentOver, if_pos hname]
    exact List.mem_flatMap.2 ⟨i, List.mem_filter.2 ⟨hi, beq_self_eq_true _⟩, hw⟩

/-- What a link proposes leads to a unit. -/
theorem Proposes.inRange (ha : a.Sound) {name : String} {i : Nat} {w : Int}
    (h : a.Proposes name i w) : 0 ≤ w ∧ w < unitCount a.schemes := by
  obtain ⟨link, _, source, target, proposed, pair, _, _, htarget, _, _, _, hw⟩ := h
  exact Scope.unitsAt_inRange (inRange_scope ha .input) htarget hw

/-- **A compiled assembly is isolated exactly as far as the connections of the units that were added
stay in their circuits.**  The circuits are accepted by their constructors and put together by any
calls.  The one exception is a connection that leads out of its circuit to the very unit to which a
link proposes it. -/
theorem compile_isolated_iff {positioner : Positioner} {config : CompileConfig} {calls : List Call}
    {c : Circuit} {d : Diagnostics} {a a' : Assembly}
    (hoffered : ∀ call ∈ calls, ∀ f ∈ call.fragments, f.Yields Circuit.Accepted)
    (hbuilt : run calls (empty positioner config) = a) (h : compile a = .ok (c, d) a') :
    a.Isolated c ↔ ∀ name circuit, (name, circuit) ∈ a.schemes → ∀ i e, circuit.units[i]? = some e →
      ∀ w : Int, w ∈ e.wires → (0 ≤ w ∧ w < circuit.units.length)
        ∨ a.Proposes name i (w + offset a.schemes name) := by
  have ha : a.Sound := by
    rw [← hbuilt, sound_iff_holds]
    exact holds_run (holds_empty positioner config) fun call hcall f hf circuit hcircuit =>
      (hoffered call hcall f hf circuit hcircuit).slotsInRange
  obtain ⟨hlength, _, places, _, hunits⟩ := compile_units ha h
  constructor
  · intro hisolated name circuit hmem i e he w hw
    obtain ⟨place, turn, start, size, _, _, hunit⟩ := hunits name circuit hmem
    -- the connection is found, moved with its unit, among those of the compiled unit
    obtain ⟨_, hleads⟩ := hisolated name circuit hmem i _ (List.getElem?_eq_some_iff.1 he).1
      (hunit i e he) (w + offset a.schemes name)
      (List.mem_append_left _ (List.mem_map.2 ⟨w, hw, rfl⟩))
    rcases hleads with hown | hproposed
    · exact .inl (by omega)
    · exact .inr hproposed
  · intro howned name circuit hmem i u hi hu w hw
    obtain ⟨place, turn, start, size, _, _, hunit⟩ := hunits name circuit hmem
    rw [hunit i _ (List.getElem?_eq_getElem hi)] at hu
    obtain rfl := Option.some.inj hu
    rw [hlength]
    rcases List.mem_append.1 hw with hown | hgiven
    · obtain ⟨v, hv, rfl⟩ := List.mem_map.1 hown
      rcases howned name circuit hmem i _ (List.getElem?_eq_getElem hi) v hv with hrange | hproposed
      · have hlt := offset_add_lt hmem ha.names (i := v.toNat) (by omega)
        exact ⟨by omega, .inl (by omega)⟩
      · exact ⟨hproposed.inRange ha, .inr hproposed⟩
    · have hproposed := mem_sent_iff.1 hgiven
      exact ⟨hproposed.inRange ha, .inr hproposed⟩

/-- Calls that connect the two gates in a row to themselves. -/
def doubled : List Call :=
  [.add "first" (.circuit twoGates), .placeLast .origin, .add "second" (.circuit twoGates),
    .placeLast ⟨0, 4, 0⟩, .connect "first" "second" .straight]

/-- The two gates in a row, twice, are isolated: the first one of them keeps its own receiver and is
given those that the link proposes. -/
theorem compile_isolated_iff_doubled :
    ∃ c d a', twoGates.Accepted
      ∧ compile (run doubled (empty (.manual .empty) .standard)) = .ok (c, d) a'
      ∧ (run doubled (empty (.manual .empty) .standard)).Isolated c
      ∧ c.units.map (fun e => e.wires) = [[1, 3, 2, 3, 2], [3, 2], [3], []] := by
  obtain ⟨c, d, a', hcompile, hwires⟩ : ∃ c d a',
      compile (run doubled (empty (.manual .empty) .standard)) = .ok (c, d) a'
        ∧ c.units.map (fun e => e.wires) = [[1, 3, 2, 3, 2], [3, 2], [3], []] := ⟨_, _, _, rfl, rfl⟩
  have haccepted : twoGates.Accepted :=
    .built (show Circuit.build twoGates.units twoGates.inputs twoGates.outputs = .ok twoGates from rfl)
  refine ⟨c, d, a', haccepted, hcompile, (compile_isolated_iff ?_ rfl hcompile).2 ?_, hwires⟩
  · intro call hcall f hf
    simp only [doubled, List.mem_cons, List.not_mem_nil, or_false] at hcall
    rcases hcall with rfl | rfl | rfl | rfl | rfl
    case inl | inr.inr.inl =>
      rw [List.mem_singleton.1 hf]
      exact Fragment.yields_circuit haccepted
    all_goals cases hf
  · intro name circuit hmem i e he w hw
    have hcircuit : circuit = twoGates := by
      have hschemes : (run doubled (empty (.manual .empty) .standard)).schemes
          = [("first", twoGates), ("second", twoGates)] := rfl
      rw [hschemes] at hmem
      simp only [List.mem_cons, Prod.mk.injEq, List.not_mem_nil, or_false] at hmem
      rcases hmem with ⟨_, rfl⟩ | ⟨_, rfl⟩ <;> rfl
    subst hcircuit
    have hrange : ∀ e ∈ twoGates.units, ∀ w ∈ e.wires, 0 ≤ w ∧ w < (2 : Int) := by decide
    exact .inl (hrange e (List.mem_of_getElem? he) w hw)

/-- A gate that sends to a second unit of its circuit, which has only one. -/
def stray : Circuit where
  units := [⟨⟨.gate .and, [1], none, false⟩, .origin, .identity⟩]
  inputs := []
  outputs := []
  bounds := .one

/-- Calls that add the gate and another one behind it, without a link. -/
def strayCalls : List Call :=
  [.add "stray" (.circuit stray), .placeLast .origin, .add "other" (.device (.ofPart (.gate .or))),
    .placeLast ⟨2, 0, 0⟩]

/-- **Accepted circuits that are not isolated**: the gate sends to the unit of the other circuit,
although no link proposes anything. -/
theorem not_isolated_stray :
    ∃ c d a', stray.Accepted ∧ (∀ call ∈ strayCalls, ∀ f ∈ call.fragments, f.Yields Circuit.Accepted)
      ∧ (run strayCalls (empty (.manual .empty) .standard)).links = []
      ∧ compile (run strayCalls (empty (.manual .empty) .standard)) = .ok (c, d) a'
      ∧ c.units.map (fun e => e.wires) = [[1], []]
      ∧ ¬ (run strayCalls (empty (.manual .empty) .standard)).Isolated c := by
  obtain ⟨c, d, a', hcompile, hwires, hunit⟩ : ∃ c d a',
      compile (run strayCalls (empty (.manual .empty) .standard)) = .ok (c, d) a'
        ∧ c.units.map (fun e => e.wires) = [[1], []]
        ∧ c.units[0]? = some ⟨⟨.gate .and, [1], none, false⟩, .origin, .identity⟩ :=
    ⟨_, _, _, rfl, rfl, rfl⟩
  have haccepted : stray.Accepted :=
    .built (show Circuit.build stray.units [] [] = .ok stray from rfl)
  refine ⟨c, d, a', haccepted, ?_, rfl, hcompile, hwires, ?_⟩
  · intro call hcall f hf
    simp only [strayCalls, List.mem_cons, List.not_mem_nil, or_false] at hcall
    rcases hcall with rfl | rfl | rfl | rfl
    · rw [List.mem_singleton.1 hf]
      exact Fragment.yields_circuit haccepted
    · cases hf
    · rw [List.mem_singleton.1 hf]
      exact fun _ hmade => .device hmade
    · cases hf
  · intro hisolated
    obtain ⟨_, hown | hproposed⟩ := hisolated "stray" stray List.mem_cons_self 0 _ (by decide) hunit 1
      List.mem_cons_self
    · exact absurd hown.2 (by decide)
    · obtain ⟨link, hlink, _⟩ := hproposed
      cases hlink

end Assembly

end Breadboard
