import Breadboard.Proofs.Assembly.Designs
import Breadboard.Proofs.Circuit.Closed

/-!
**Compiling closed circuits.**

The constructor of circuits does not look at the connections of the units, so that those of a
compiled circuit lead to units has to come from the circuits that were added: their own connections
are shifted with their units, and the links draw connections only between units that are there.

Main results:

* `Assembly.closed_of_link` — an assembly of closed circuits is linked to a closed circuit;
* `Assembly.closedness_kept` — **edits keep circuits closed, and so does building and compiling**.
-/

set_option autoImplicit false
set_option relaxedAutoImplicit false

namespace Breadboard

namespace Assembly

variable {a : Assembly}

theorem Holds.sound (h : a.Holds Circuit.Closed) : a.Sound :=
  ⟨h.names, fun s hs => (h.circuits s hs).slots⟩

/-- Before any connection is drawn, all connections lead to units. -/
theorem wires_laidOut_inRange (h : a.Holds Circuit.Closed) (places : Keyed (Point × Turn)) :
    ∀ e ∈ laidOut a.schemes places, ∀ w ∈ e.wires, 0 ≤ w ∧ w < unitCount a.schemes := by
  intro e he w hw
  obtain ⟨⟨name, c⟩, hmem, he⟩ := List.mem_flatMap.1 he
  obtain ⟨u, hu, rfl⟩ := List.mem_map.1 he
  obtain ⟨v, hv, rfl⟩ := List.mem_map.1 hw
  have hrange := (h.circuits _ hmem).wires u hu v hv
  have hlt := offset_add_lt hmem h.names (i := v.toNat) (by simp only at hrange; omega)
  simp only at hrange ⊢
  omega

/-- **An assembly of closed circuits is linked to a closed circuit.** -/
theorem closed_of_link (h : a.Holds Circuit.Closed) {c : Circuit} {d : Diagnostics}
    (hlink : a.link = .ok (c, d)) : c.Closed := by
  obtain ⟨places, connections, ins, outs, hlinking⟩ := (link_eq_ok_iff h.sound).1 hlink
  refine Circuit.closed_of_build hlinking.built fun e he w hw => ?_
  rw [length_attach, length_laidOut]
  obtain ⟨i, hi⟩ := List.getElem?_of_mem he
  rw [getElem?_attach] at hi
  obtain ⟨u, hu, rfl⟩ := Option.map_eq_some_iff.1 hi
  rcases List.mem_append.1 hw with hown | hgiven
  · exact wires_laidOut_inRange h places u (List.mem_of_getElem? hu) w hown
  · obtain ⟨pair, hpair, rfl⟩ := List.mem_map.1 hgiven
    exact (inRange_of_mem_flatten (inRange_scope h.sound .output) (inRange_scope h.sound .input)
      hlinking.drawn pair (List.mem_filter.1 hpair).1).2

/-- **Edits keep circuits closed, and so does building and compiling.**  A closed circuit stays
closed under every sequence of edits, whether they succeed or fail, as long as placeholders have
extents that reach no further than a word.  And whatever calls build an assembly, if no circuit that
is offered fails to be closed, then the circuit that it is compiled to is closed. -/
theorem closedness_kept :
    (∀ (c : Circuit) (edits : List Circuit.Edit), c.Closed →
      (∀ edit ∈ edits, edit.Admissible) → (Circuit.edited edits c).Closed)
    ∧ ∀ (positioner : Positioner) (config : CompileConfig) (calls : List Call) (c : Circuit)
        (d : Diagnostics) (a' : Assembly),
      (∀ call ∈ calls, ∀ f ∈ call.fragments, f.Yields Circuit.Closed) →
      compile (run calls (empty positioner config)) = .ok (c, d) a' → c.Closed := by
  refine ⟨fun c edits hc hedits => Circuit.closed_edited hedits hc, ?_⟩
  intro positioner config calls c d a' hcalls hcompile
  obtain ⟨_, hlink, _⟩ := compile_eq_ok_iff.1 hcompile
  exact closed_of_link (holds_run (holds_empty positioner config) hcalls) hlink

theorem closed_twoGates : twoGates.Closed := by
  refine ⟨fun side s hs => ?_, ?_, fun side => ?_, rfl⟩
  · rw [← Slot.dangling?_eq_none_iff_inRange]
    cases side <;> (obtain rfl := List.mem_singleton.1 hs; decide)
  · unfold Circuit.WiresInRange
    decide
  · cases side <;> exact List.nodup_singleton _

/-- Calls that build an assembly of the two gates in a row, connected to themselves and shown. -/
def looping : List Call :=
  [.add "left" (.circuit twoGates), .placeLast .origin, .connect "left" "left" .straight,
    .forward .output "_" "left" none]

/-- The two gates in a row after edits of which one fails, and compiled. -/
theorem closedness_kept_twoGates :
    (Circuit.edited [.rotate .quarterX, .removeUnit 2, .replaceUnused (.ofPart (.gate .or)),
      .removeUnit 0] twoGates).Closed
    ∧ ∃ c d a', compile (run looping (empty (.manual ⟨[], none⟩) .standard)) = .ok (c, d) a'
      ∧ c.units.length = 2 ∧ c.Closed := by
  refine ⟨closedness_kept.1 twoGates _ closed_twoGates fun edit hedit => ?_, ?_⟩
  · simp only [List.mem_cons, List.not_mem_nil, or_false] at hedit
    rcases hedit with rfl | rfl | rfl | rfl
    · trivial
    · trivial
    · exact ⟨by decide, by decide, by decide⟩
    · trivial
  · obtain ⟨c, d, a', hcompile, hlength⟩ : ∃ c d a',
        compile (run looping (empty (.manual ⟨[], none⟩) .standard)) = .ok (c, d) a'
          ∧ c.units.length = 2 := ⟨_, _, _, rfl, rfl⟩
    refine ⟨c, d, a', hcompile, hlength, closedness_kept.2 _ _ looping c d a' ?_ hcompile⟩
    intro call hcall f hf
    simp only [looping, List.mem_cons, List.not_mem_nil, or_false] at hcall
    rcases hcall with rfl | rfl | rfl | rfl
    · rw [List.mem_singleton.1 hf]
      exact Fragment.yields_circuit closed_twoGates
    all_goals cases hf

end Assembly

end Breadboard
