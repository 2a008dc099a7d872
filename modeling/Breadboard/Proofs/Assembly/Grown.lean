import Breadboard.Proofs.Assembly.Designs
import Breadboard.Proofs.Circuit.Records

/-!
**Grown circuits.**

Circuits grow from devices without connections: single devices and cubes are edited, put together by
calls and compiled, and the results are edited and put together again.  Whatever is grown in this
way is live.  An assembly draws connections from outputs to inputs only, and these address gates and
timers only, as the slots that are planned address what the paths lead to.

Main definitions:

* `Circuit.Grown` — circuits that have grown from devices without connections.

Main results:

* `Assembly.live_of_link` — an assembly of live circuits is linked to a live circuit;
* `Circuit.Grown.live` — **every grown circuit is live**;
* `Circuit.grown_wiring` — **only gates and timers are wired, and the document is closed**.
-/

set_option autoImplicit false
set_option relaxedAutoImplicit false

namespace Breadboard

namespace Assembly

variable {a : Assembly}

theorem Holds.sound_of_live (h : a.Holds Circuit.Live) : a.Sound :=
  ⟨h.names, fun s hs => (h.circuits s hs).slotsInRange⟩

/-- A reference that leads to a gate or timer of a circuit leads to it in the assembly. -/
theorem leadsToLogic_linked (hnames : (Keyed.names a.schemes).Nodup)
    (places : Keyed (Point × Turn)) (connections : List (Int × Int)) {name : String} {c : Circuit}
    (hmem : (name, c) ∈ a.schemes) {i : Int} (h : Circuit.LeadsToLogic c.units i) :
    Circuit.LeadsToLogic (attach connections (laidOut a.schemes places))
      (i + offset a.schemes name) := by
  obtain ⟨h0, e, he, hlogic⟩ := h
  have hi : i.toNat < c.units.length := (List.getElem?_eq_some_iff.1 he).1
  have hlinked := getElem?_linked places connections hnames hmem hi
  rw [he, Option.map_some] at hlinked
  have hnumber : (i + offset a.schemes name).toNat = offset a.schemes name + i.toNat := by omega
  rw [← hnumber] at hlinked
  exact ⟨by omega, _, hlinked, hlogic⟩

/-- What paths lead to are gates and timers of the assembly. -/
theorem all_scope (h : a.Holds Circuit.Live) (places : Keyed (Point × Turn))
    (connections : List (Int × Int)) (side : Side) :
    (scope a.schemes side).All
      (Circuit.LeadsToLogic (attach connections (laidOut a.schemes places))) := by
  intro entry hentry s hs p i hi
  obtain ⟨⟨name, c⟩, hmem, rfl⟩ := List.mem_map.1 hentry
  exact leadsToLogic_linked h.names places connections hmem
    ((h.circuits _ hmem).slots side s hs p i hi)

/-- A unit of a linked assembly is one of a circuit, with its own receivers and those that links
give it. -/
theorem Linking.exists_unit {places : Keyed (Point × Turn)} {connections : List (List (Int × Int))}
    {ins outs : List Slot × Keyed (List Unresolved)} {c : Circuit} {d : Diagnostics}
    (h : Linking a places connections ins outs c d) (hnames : (Keyed.names a.schemes).Nodup)
    {e : Element} (he : e ∈ c.units) : ∃ name circuit i u, (name, circuit) ∈ a.schemes
      ∧ circuit.units[i]? = some u ∧ c.units[offset a.schemes name + i]? = some e
      ∧ e.part = u.part
      ∧ e.wires = (u.wires.map fun w => w + (offset a.schemes name : Int))
        ++ receivers connections.flatten ((offset a.schemes name : Int) + i) := by
  obtain ⟨n, hn⟩ := List.getElem?_of_mem he
  have hlt : n < unitCount a.schemes := by
    rw [← h.length_units]
    exact (List.getElem?_eq_some_iff.1 hn).1
  obtain ⟨name, circuit, i, hmem, hi, rfl⟩ := exists_eq_offset_add hnames hlt
  have hlinked := getElem?_linked places connections.flatten hnames hmem hi
  rw [← (Circuit.build_eq_ok h.built).1, hn, List.getElem?_eq_getElem hi, Option.map_some]
    at hlinked
  obtain rfl := Option.some.inj hlinked
  exact ⟨name, circuit, i, _, hmem, List.getElem?_eq_getElem hi, hn, rfl, rfl⟩

/-- **An assembly of live circuits is linked to a live circuit.** -/
theorem live_of_link (h : a.Holds Circuit.Live) {c : Circuit} {d : Diagnostics}
    (hlink : a.link = .ok (c, d)) : c.Live := by
  obtain ⟨places, connections, ins, outs, hlinking⟩ := (link_eq_ok_iff h.sound_of_live).1 hlink
  have hunits := (Circuit.build_eq_ok hlinking.built).1
  have hscope (side : Side) : (scope a.schemes side).All (Circuit.LeadsToLogic c.units) :=
    hunits ▸ all_scope h places connections.flatten side
  have hdrawn := all_of_mem_flatten (hscope .output) (hscope .input) hlinking.drawn
  refine ⟨?_, ?_, ?_⟩
  · intro side s hs
    obtain ⟨made, hmade, hslots⟩ := hlinking.exists_made side
    exact all_of_makeSlots (hscope side) hmade s (hslots ▸ hs)
  · intro e he hne
    obtain ⟨name, circuit, i, u, hmem, hu, hn, hpart, hwires⟩ := hlinking.exists_unit h.names he
    rw [hwires] at hne
    by_cases hown : u.wires = []
    · -- a unit that is given receivers stands behind a point of an output
      rw [hown, List.map_nil, List.nil_append] at hne
      obtain ⟨w, hw⟩ := List.exists_mem_of_ne_nil _ hne
      obtain ⟨pair, hpair, _⟩ := List.mem_map.1 hw
      obtain ⟨hpair, hsender⟩ := List.mem_filter.1 hpair
      obtain ⟨_, v, hv, hlogic⟩ := (hdrawn pair hpair).1
      rw [beq_iff_eq] at hsender
      rw [hsender, ← Int.natCast_add, Int.toNat_natCast, hn] at hv
      obtain rfl := Option.some.inj hv
      exact hlogic
    · rw [hpart]
      exact (h.circuits _ hmem).senders u (List.mem_of_getElem? hu) hown
  · intro e he w hw
    obtain ⟨name, circuit, i, u, hmem, hu, _, _, hwires⟩ := hlinking.exists_unit h.names he
    rw [hwires] at hw
    rcases List.mem_append.1 hw with hown | hgiven
    · obtain ⟨v, hv, rfl⟩ := List.mem_map.1 hown
      rw [hunits]
      exact leadsToLogic_linked h.names places connections.flatten hmem
        ((h.circuits _ hmem).receivers u (List.mem_of_getElem? hu) v hv)
    · obtain ⟨pair, hpair, rfl⟩ := List.mem_map.1 hgiven
      exact (hdrawn pair (List.mem_filter.1 hpair).1).2

end Assembly

namespace Circuit

/-- Circuits that have grown from devices without connections: by edits, which may fail, and by
calls on an assembly of grown circuits that is compiled. -/
inductive Grown : Circuit → Prop where
  | device {d : Device} {c : Circuit} (bare : d.wires = []) (made : ofDevice d = .ok c) : Grown c
  | cube {size : Size} {d : Device} {turn : Turn} {kind : String} {c : Circuit}
      (bare : d.wires = []) (made : Circuit.cube size d turn kind = .ok c) : Grown c
  | edited {c : Circuit} (edit : Edit) (grown : Grown c) : Grown (edit.perform c)
  | compiled {positioner : Positioner} {config : CompileConfig} {calls : List Assembly.Call}
      {c : Circuit} {d : Diagnostics} {a : Assembly}
      (offered : ∀ call ∈ calls, ∀ f ∈ call.fragments, ∀ c, f.circuit? = .ok c → Grown c)
      (made : (Assembly.run calls (Assembly.empty positioner config)).compile = .ok (c, d) a) :
      Grown c

theorem Grown.edited_of_grown {c : Circuit} (h : c.Grown) (edits : List Edit) :
    (Circuit.edited edits c).Grown := by
  induction edits generalizing c with
  | nil => exact h
  | cons edit edits ih => exact ih (h.edited edit)

/-- **Every grown circuit is live.** -/
theorem Grown.live {c : Circuit} (h : c.Grown) : c.Live := by
  induction h with
  | device bare made => exact live_ofDevice bare made
  | cube bare made => exact live_cube bare made
  | edited edit _ ih => exact live_perform ih edit
  | compiled _ made ih =>
      obtain ⟨_, hlink, _⟩ := Assembly.compile_eq_ok_iff.1 made
      refine Assembly.live_of_link (Assembly.holds_run (Assembly.holds_empty _ _) ?_) hlink
      intro call hcall f hf c hc
      exact ih call hcall f hf c hc

/-- **Only gates and timers are wired, and the document is closed.**  In a grown circuit every index
of a slot is that of a gate or timer, and every connection leads from a gate or timer to one.  So in
its document every record with a controller holds its own place, every number that a controller
lists is the place of a record with a controller, and all connections are listed.  The document is
written if there is a colour for every point of a slot. -/
theorem grown_wiring {c : Circuit} (h : c.Grown) :
    (∀ side, ∀ s ∈ c.slots side, ∀ p, ∀ i ∈ s.getPoint p,
        0 ≤ i ∧ ∃ e, c.units[i.toNat]? = some e ∧ e.part.isLogic = true)
      ∧ (∀ e ∈ c.units, ∀ w ∈ e.wires, e.part.isLogic = true
        ∧ 0 ≤ w ∧ ∃ u, c.units[w.toNat]? = some u ∧ u.part.isLogic = true)
      ∧ (∀ palette : Palette, (∀ number p, ∃ s, palette.input number p = .ok s) →
        (∀ number p, ∃ s, palette.output number p = .ok s) → ∃ b, c.blueprint palette = .ok b)
      ∧ ∀ (palette : Palette) (b : Blueprint), c.blueprint palette = .ok b →
        ClosedDocument b.document.records
          ∧ b.document.records.map (fun record => record.controller?.isSome)
            = c.units.map (fun e => e.part.isLogic)
          ∧ b.document.records.map Json.listed = c.units.map fun e => e.wires := by
  have hlive := h.live
  refine ⟨hlive.slots, ?_, ?_, ?_⟩
  · intro e he w hw
    exact ⟨hlive.senders e he (List.ne_nil_of_mem hw), hlive.receivers e he w hw⟩
  · intro palette hin hout
    exact exists_blueprint hlive.slotsInRange hin hout
  · intro palette b hb
    obtain ⟨records, hrecords, hdocument⟩ := records_document hb
    rw [hdocument]
    exact ⟨hlive.closedDocument hrecords, controllers_records hrecords,
      hlive.listed_records hrecords⟩

/-- A pane of glass. -/
def pane (size : Point) (solid : size.all (fun v => decide (1 ≤ v)) = true) : Device :=
  .ofPart (.block ⟨"GLASS", "5f41af56-df4c-4837-9b3c-10781335757f", "e4f8ff"⟩ size solid)

/-- The calls that put a timer, a gate and a tall pane together.  The pane has no input, so the
second link is left out. -/
def tickingCalls : List Assembly.Call :=
  [.add "clock" (.device (.ofPart (.timer 40))), .placeLast .origin,
    .add "gate" (.device (.ofPart (.gate .nor))), .placeLast ⟨2, 0, 0⟩,
    .add "wall" (.device (pane ⟨1, 3, 1⟩ rfl)), .placeLast ⟨4, 0, 0⟩,
    .connect "clock" "gate" .straight, .connect "gate" "wall" .straight,
    .forward .output "out" "gate/_" none]

/-- What these calls are compiled to. -/
def ticking : Circuit where
  units := [⟨⟨.timer 40, [1], none, false⟩, .origin, .identity⟩,
    ⟨.ofPart (.gate .nor), ⟨2, 0, 0⟩, .identity⟩, ⟨pane ⟨1, 3, 1⟩ rfl, ⟨4, 0, 0⟩, .identity⟩]
  inputs := []
  outputs := [.point "out" defaultKind 1]
  bounds := ⟨5, 3, 2⟩

/-- The edits that put panes in the place of what emits nothing, and turn the result. -/
def glazing : List Edit :=
  [.replaceUnused (pane .one rfl), .rotate .quarterX]

/-- The document of the timer, the gate and the pane, after the unconnected ones were replaced and
all were turned. -/
theorem grown_wiring_ticking :
    ∃ d a b, (Assembly.run tickingCalls (Assembly.empty (.manual .empty) .standard)).compile
        = .ok (ticking, d) a
      ∧ d.count = 1
      ∧ (edited glazing ticking).Grown
      ∧ (edited glazing ticking).blueprint ⟨fun _ _ => .ok "ffffff", fun _ _ => .ok "000000"⟩
        = .ok b
      ∧ ClosedDocument b.document.records
      ∧ b.document.records.map Json.listed = [[1], [], []] := by
  obtain ⟨d, a, hcompile, hcount⟩ : ∃ d a,
      (Assembly.run tickingCalls (Assembly.empty (.manual .empty) .standard)).compile
        = .ok (ticking, d) a ∧ d.count = 1 := ⟨_, _, rfl, by rfl⟩
  have hdevice : ∀ device : Device, device.wires = [] → ∀ c,
      Fragment.circuit? (.device device) = .ok c → c.Grown :=
    fun _ hbare _ hmade => .device hbare hmade
  have hgrown : ticking.Grown := by
    refine .compiled ?_ hcompile
    intro call hcall f hf
    simp only [tickingCalls, List.mem_cons, List.not_mem_nil, or_false] at hcall
    rcases hcall with rfl | rfl | rfl | rfl | rfl | rfl | rfl | rfl | rfl
    case inl | inr.inr.inl | inr.inr.inr.inr.inl =>
      rw [List.mem_singleton.1 hf]
      exact hdevice _ rfl
    all_goals cases hf
  have hedited : (edited glazing ticking).Grown := hgrown.edited_of_grown glazing
  obtain ⟨_, _, hwritten, hdocument⟩ := grown_wiring hedited
  obtain ⟨b, hb⟩ := hwritten ⟨fun _ _ => .ok "ffffff", fun _ _ => .ok "000000"⟩
    (fun _ _ => ⟨_, rfl⟩) fun _ _ => ⟨_, rfl⟩
  obtain ⟨hclosed, _, hlisted⟩ := hdocument _ b hb
  exact ⟨d, a, b, hcompile, hcount, hedited, hb, hclosed, hlisted.trans (by rfl)⟩

end Circuit

end Breadboard
