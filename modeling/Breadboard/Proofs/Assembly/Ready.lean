import Breadboard.Proofs.Assembly.Designs

/-!
**When an assembly is compiled.**

An assembly that accepts calls is compiled if its circuits have places and can be moved, its plans
are made and the wirings of its links propose pairs, unless a unit has too many receivers.  Nothing
else is needed: the slots that plans make lead to units, and whether units have a bounding box does
not depend on where they stand.

Main definitions:

* `Assembly.CompilesTo`, `Assembly.Overflows` — what compiling gives, or which units have too many
  receivers;
* `Assembly.Ready` — the conditions on an assembly that is compiled as far as connection counts
  allow;
* `Assembly.Draws` — the units before connection counts are checked.

Main results:

* `Assembly.compilesTo_iff` — **what an assembly is compiled to**;
* `Assembly.Draws.overflows` — when compiling is refused for its connection counts.
-/

set_option autoImplicit false
set_option relaxedAutoImplicit false

namespace Breadboard

namespace Assembly

/-- Compiling gives a circuit of the given units. -/
def CompilesTo (a : Assembly) (units : List Element) : Prop :=
  ∃ c d a', compile a = .ok (c, d) a' ∧ c.units = units

/-- Compiling is refused as the given units have too many receivers. -/
def Overflows (a : Assembly) (found : List (Nat × Nat)) : Prop :=
  ∃ ins outs a', compile a = .error (.fanOut ins outs a.config.maxConnections found) a'

/-- The plans of both sides are made, under different names. -/
def PlansFit (a : Assembly) : Prop :=
  ∀ side, ((a.plans side).map SlotPlan.name).Nodup
    ∧ ∃ made, makeSlots (a.plans side) (scope a.schemes side) side = .ok made

/-- The conditions on an assembly that is compiled as far as connection counts allow. -/
structure Ready (a : Assembly) : Prop where
  accepts : a.consumed = false
  placed : ∃ places, a.positioner.arrange (Keyed.names a.schemes) = .ok places
  movable : ∀ s ∈ a.schemes, s.2.Movable
  plans : a.PlansFit
  wired : ∀ link ∈ a.links, ∃ connections,
    linkConnections (scope a.schemes .output) (scope a.schemes .input) link = .ok connections

/-- The assembly has the given units before connection counts are checked. -/
def Draws (a : Assembly) (units : List Element) : Prop :=
  a.Ready ∧ ∃ places connections,
    a.positioner.arrange (Keyed.names a.schemes) = .ok places
      ∧ a.links.mapM (linkConnections (scope a.schemes .output) (scope a.schemes .input))
          = .ok connections
      ∧ units = attach connections.flatten (laidOut a.schemes places)

variable {a : Assembly}

/-- An assembly without plans has none that fail. -/
theorem plansFit_of_nil (hin : a.inputs = []) (hout : a.outputs = []) : a.PlansFit := by
  intro side
  cases side with
  | input =>
      rw [plans, hin]
      exact ⟨List.nodup_nil, _, rfl⟩
  | output =>
      rw [plans, hout]
      exact ⟨List.nodup_nil, _, rfl⟩

/-- An assembly that is ready has units before connection counts are checked. -/
theorem Ready.exists_draws (h : a.Ready) : ∃ units, a.Draws units := by
  obtain ⟨places, hplaces⟩ := h.placed
  obtain ⟨connections, hconnections⟩ := Loop.mapM_isOk_iff.2 h.wired
  exact ⟨_, h, places, connections, hplaces, hconnections, rfl⟩

/-- The check of connection counts passes exactly if no unit has too many receivers, or if it is
off. -/
theorem checkFanOut_eq_ok_iff {config : CompileConfig} {outputs inputs : Scope}
    {units : List Element} : checkFanOut config outputs inputs units = .ok () ↔
      (config.checkOverflow = true → overflowing config.maxConnections units = []) := by
  unfold checkFanOut
  cases config.checkOverflow with
  | false => simp
  | true => cases overflowing config.maxConnections units <;> simp

/-- The check fails exactly if it is on and some units have too many receivers, and it reports
these. -/
theorem checkFanOut_eq_error_iff {config : CompileConfig} (outputs inputs : Scope)
    {units : List Element} {fault : Fault} : checkFanOut config outputs inputs units = .error fault ↔
      config.checkOverflow = true ∧ overflowing config.maxConnections units ≠ []
        ∧ fault = .fanOut (reaching (overflowing config.maxConnections units) inputs)
          (reaching (overflowing config.maxConnections units) outputs) config.maxConnections
          (overflowing config.maxConnections units) := by
  unfold checkFanOut
  cases config.checkOverflow with
  | false => simp
  | true => cases overflowing config.maxConnections units <;> simp [eq_comm]

/-- A linked assembly is ready, and its units are those that it draws. -/
theorem Linking.draws {places : Keyed (Point × Turn)} {connections : List (List (Int × Int))}
    {ins outs : List Slot × Keyed (List Unresolved)} {c : Circuit} {d : Diagnostics}
    (h : Linking a places connections ins outs c d) (hopen : a.consumed = false) :
    a.Draws c.units := by
  refine ⟨⟨hopen, ⟨places, h.arranged⟩, movable_of_layOut h.laid, fun side => ?_,
    Loop.mapM_isOk_iff.1 ⟨connections, h.drawn⟩⟩, places, connections, h.arranged, h.drawn,
    (Circuit.build_eq_ok h.built).1⟩
  obtain ⟨made, hmade, hslots⟩ := h.exists_made side
  refine ⟨?_, made, hmade⟩
  rw [← names_of_makeSlots hmade, ← hslots]
  exact Circuit.nodup_names_of_build h.built side

/-- Units that are drawn have a bounding box, as all circuits have one. -/
theorem Draws.exists_boundingBox {units : List Element} (h : a.Draws units) :
    ∃ box, Circuit.boundingBox units = .ok box := by
  obtain ⟨hready, places, connections, _, _, rfl⟩ := h
  refine Circuit.boundingBox_isOk_iff.2 fun e he => ?_
  -- connections and places play no part in it, only the parts of the circuits
  obtain ⟨i, hi⟩ := List.getElem?_of_mem he
  rw [getElem?_attach] at hi
  obtain ⟨u, hu, rfl⟩ := Option.map_eq_some_iff.1 hi
  obtain ⟨s, hs, hu⟩ := List.mem_flatMap.1 (List.mem_of_getElem? hu)
  obtain ⟨v, hv, rfl⟩ := List.mem_map.1 hu
  have hpart := Element.corners_isOk_iff.1
    (Circuit.boundingBox_isOk_iff.1 (hready.movable s hs).box v hv)
  exact Element.corners_isOk_iff.2 hpart

/-- Compiling gives the units that are drawn, if the check of connection counts passes. -/
theorem Draws.compilesTo (ha : a.Sound) {units : List Element} (h : a.Draws units)
    (hcheck : a.config.checkOverflow = true → overflowing a.config.maxConnections units = []) :
    a.CompilesTo units := by
  have hbox := h.exists_boundingBox
  obtain ⟨hready, places, connections, hplaces, hconnections, rfl⟩ := h
  obtain ⟨hin, ins, hins⟩ := hready.plans .input
  obtain ⟨hout, outs, houts⟩ := hready.plans .output
  have hscope (side : Side) : (scope a.schemes side).InRange
      (attach connections.flatten (laidOut a.schemes places)).length := by
    rw [length_attach, length_laidOut]
    exact inRange_scope ha side
  obtain ⟨bounds, hbuilt⟩ := Circuit.exists_build (names_of_makeSlots hins ▸ hin)
    (names_of_makeSlots houts ▸ hout) (inRange_of_makeSlots (hscope .input) hins)
    (inRange_of_makeSlots (hscope .output) houts) hbox
  have hlinking : Linking a places connections ins outs ⟨_, ins.1, outs.1, bounds⟩
      ⟨_, ins.2, outs.2⟩ :=
    { arranged := hplaces
      laid := layOut_of_movable ha.names hready.movable
      inputs := hins
      outputs := houts
      drawn := hconnections
      checked := checkFanOut_eq_ok_iff.2 hcheck
      built := hbuilt
      reported := rfl }
  exact ⟨_, _, _, compile_eq_ok_iff.2
    ⟨hready.accepts, (link_eq_ok_iff ha).2 ⟨_, _, _, _, hlinking⟩, rfl⟩, rfl⟩

/-- **What an assembly is compiled to**: the units that it draws, if the check of connection counts
passes. -/
theorem compilesTo_iff (ha : a.Sound) {units : List Element} :
    a.CompilesTo units ↔ a.Draws units
      ∧ (a.config.checkOverflow = true → overflowing a.config.maxConnections units = []) := by
  constructor
  · rintro ⟨c, d, a', hcompile, rfl⟩
    obtain ⟨hopen, hlink, _⟩ := compile_eq_ok_iff.1 hcompile
    obtain ⟨places, connections, ins, outs, hlinking⟩ := (link_eq_ok_iff ha).1 hlink
    refine ⟨hlinking.draws hopen, ?_⟩
    rw [(Circuit.build_eq_ok hlinking.built).1]
    exact checkFanOut_eq_ok_iff.1 hlinking.checked
  · rintro ⟨hdraws, hcheck⟩
    exact hdraws.compilesTo ha hcheck

/-- Compiling is refused if the check of connection counts fails for the units that are drawn. -/
theorem Draws.overflows (ha : a.Sound) {units : List Element} (h : a.Draws units)
    (hcheck : a.config.checkOverflow = true)
    (hfound : overflowing a.config.maxConnections units ≠ []) :
    a.Overflows (overflowing a.config.maxConnections units) := by
  obtain ⟨hready, places, connections, hplaces, hconnections, rfl⟩ := h
  obtain ⟨_, ins, hins⟩ := hready.plans .input
  obtain ⟨_, outs, houts⟩ := hready.plans .output
  obtain ⟨reachedIns, reachedOuts, hfails⟩ : ∃ ins outs,
      checkFanOut a.config (scope a.schemes .output) (scope a.schemes .input)
        (attach connections.flatten (laidOut a.schemes places))
        = .error (.fanOut ins outs a.config.maxConnections (overflowing a.config.maxConnections
          (attach connections.flatten (laidOut a.schemes places)))) :=
    ⟨_, _, (checkFanOut_eq_error_iff _ _).2 ⟨hcheck, hfound, rfl⟩⟩
  have hlink : a.link = .error (.fanOut reachedIns reachedOuts a.config.maxConnections
      (overflowing a.config.maxConnections
        (attach connections.flatten (laidOut a.schemes places)))) := by
    rw [link_eq ha, hplaces, Fault.ok_bind, layOut_of_movable ha.names hready.movable]
    simp only [plans] at hins houts
    simp only [Fault.ok_bind, hins, houts, hconnections, hfails, Fault.error_bind]
  refine ⟨reachedIns, reachedOuts, { a with consumed := true }, ?_⟩
  rw [compile_of_open hready.accepts, hlink]

end Assembly

end Breadboard
