import Breadboard.Proofs.Assembly.Placed
import Breadboard.Proofs.Assembly.Ready
import Breadboard.Proofs.Assembly.Stored
import Breadboard.Proofs.Circuit.Cells
import Breadboard.Proofs.Wiring.Drafting

/-!
**The outcomes of compiling.**

Linking an assembly constructs slots and a circuit, and all constructions check what they are given.
Whatever calls an assembly was built by, these checks pass, as the calls have made sure of it: names
are different, slots address units that exist, and sectors fit.  What is left are three ways to
fail: a circuit has no place, there can be no array over the box of a planned slot, or a unit has
too many receivers.  The second one is met only by empty slots that are planned as such.

Main definitions:

* `Assembly.Call.Admissible` — calls that offer circuits as they are built, with wirings that do not
  fail;
* `Assembly.Regular` — what such calls keep;
* `Assembly.compileChecked` — compiling with all conditions checked;
* `Assembly.Refused` — compiling is refused for the box of a planned slot;
* `Assembly.Crowded` — a unit has too many receivers.

Main results:

* `Assembly.regular_run` — **whatever is built by such calls is regular**;
* `Assembly.Regular.ready` — a regular assembly whose circuits have places is ready;
* `Assembly.Regular.compileChecked_eq` — **no check fails that is not made anyway**;
* `Assembly.compile_outcomes` — **compiling has four outcomes, and when it has which**;
* `Assembly.compile_sheet` — an assembly whose only fault is an empty slot.
-/

set_option autoImplicit false
set_option relaxedAutoImplicit false

namespace Breadboard

/-- The slots of a circuit address its units, whose places and sizes are far from the ends of a
word.  Connections are not checked when an assembly is linked, so they may lead anywhere. -/
structure Circuit.Regular (c : Circuit) : Prop where
  slots : c.SlotsInRange
  modest : c.Modest

/-- A single device is regular if its size is. -/
theorem Circuit.regular_ofDevice {d : Device} {c : Circuit} (h : ofDevice d = .ok c)
    (hsize : d.part.size.IsModest) : c.Regular := by
  obtain ⟨hunits, _⟩ := build_eq_ok h
  refine ⟨slotsInRange_of_build h, ⟨?_, ?_⟩⟩
  · intro e he
    rw [hunits, List.mem_singleton] at he
    rw [he]
    simp [Point.IsModest, Point.origin]
  · intro e he
    rw [hunits, List.mem_singleton] at he
    rw [he]
    exact hsize

namespace Assembly

/-! ### Assemblies as calls build them -/

/-- A call that offers regular circuits only, plans slots that were drafted, and connects by wirings
that do not fail. -/
structure Call.Admissible (call : Call) : Prop where
  circuits : ∀ f ∈ call.fragments, f.Yields Circuit.Regular
  wirings : ∀ w ∈ call.wirings, w.Total
  plans : ∀ side p, call = .plan side p → p.Drafted

/-- The circuits of an assembly are regular, its plans proper and under different names, and its
wirings do not fail. -/
structure Regular (a : Assembly) : Prop where
  accepts : a.consumed = false
  circuits : a.Holds Circuit.Regular
  distinct : ∀ side, ((a.plans side).map SlotPlan.name).Nodup
  plans : ∀ side, ∀ p ∈ a.plans side, p.Proper
  links : ∀ link ∈ a.links, link.wiring.Total

theorem regular_empty (positioner : Positioner) (config : CompileConfig) :
    (empty positioner config).Regular where
  accepts := rfl
  circuits := holds_empty positioner config
  distinct side := by cases side <;> exact List.nodup_nil
  plans side p hp := by cases side <;> cases hp
  links link hlink := by cases hlink

namespace Regular

variable {a b : Assembly}

/-- A change that plans nothing keeps the plans. -/
theorem change (h : a.Regular) (hconsumed : b.consumed = a.consumed)
    (hplans : ∀ side, b.plans side = a.plans side) (hcircuits : b.Holds Circuit.Regular)
    (hlinks : ∀ link ∈ b.links, link.wiring.Total) : b.Regular where
  accepts := hconsumed.trans h.accepts
  circuits := hcircuits
  distinct side := hplans side ▸ h.distinct side
  plans side := hplans side ▸ h.plans side
  links := hlinks

/-- One more plan of a new name. -/
theorem pushPlan (h : a.Regular) {side : Side} {p : SlotPlan} (hp : p.Proper)
    (hnew : p.name ∉ (a.plans side).map SlotPlan.name) : (a.pushPlan side p).Regular where
  accepts := by cases side <;> exact h.accepts
  circuits := h.circuits.of_schemes_eq (by cases side <;> rfl)
  distinct := nodup_names_pushPlan h.distinct hnew
  plans := forall_plans_pushPlan h.plans hp
  links := by cases side <;> exact h.links

end Regular

/-- The plan that passes a slot on is proper, as its sectors are declared like any others. -/
theorem proper_of_forwardPlan {name : String} {kind : Option String} {parts : Path} {slot : Slot}
    {sector : Sector} {plan : SlotPlan} (h : forwardPlan name kind parts slot sector = .ok plan) :
    plan.Proper := by
  obtain ⟨size, _, h⟩ := Fault.bind_eq_ok_iff.1 h
  have hnew := SlotPlan.proper_new name (kind.getD sector.kind) size
  dsimp only at h
  split at h
  · refine Loop.foldlM_invariant SlotPlan.Proper h (hnew.push .straight) ?_
    intro sub _ plan next hplan hnext
    exact hplan.addSector hnext
  · cases h
    exact hnew.push .straight

/-- **Every admissible call keeps an assembly regular**, whether it fails or not. -/
theorem Call.keeps_regular {call : Call} (h : call.Admissible) : Keeps Regular call.perform := by
  refine keeps_of_change fun a b ha hchange => ?_
  have hsame (b : Assembly) (hschemes : b.schemes = a.schemes) : b.Holds Circuit.Regular :=
    ha.circuits.of_schemes_eq hschemes
  cases hchange with
  | checked => exact ha.change rfl (fun side => by cases side <;> rfl) (hsame _ rfl) ha.links
  | added _ hoffered hyields hnew =>
      refine ha.change rfl (fun side => by cases side <;> rfl) ?_ ha.links
      exact ha.circuits.concat (h.circuits _ hoffered _ hyields) hnew rfl
  | connected _ hused =>
      refine ha.change rfl (fun side => by cases side <;> rfl) (hsame _ rfl) fun link hlink => ?_
      rcases List.mem_append.1 hlink with hold | hlast
      · exact ha.links link hold
      · rw [List.mem_singleton.1 hlast]
        exact h.wirings _ hused
  | arranged => exact ha.change rfl (fun side => by cases side <;> rfl) (hsame _ rfl) ha.links
  | planned _ hnew => exact ha.pushPlan (h.plans _ _ rfl).proper hnew
  | forwarded _ _ hmade hnew => exact ha.pushPlan (proper_of_forwardPlan hmade) hnew

/-- **Whatever is built by admissible calls is regular.** -/
theorem regular_run {calls : List Call} {a : Assembly} (ha : a.Regular)
    (h : ∀ call ∈ calls, call.Admissible) : (run calls a).Regular :=
  run_of_keeps ha fun call hcall => Call.keeps_regular (h call hcall)

/-! ### What a regular assembly is compiled to -/

section Regular

variable {a : Assembly}

theorem Regular.sound (h : a.Regular) : a.Sound :=
  ⟨h.circuits.names, fun s hs => (h.circuits.circuits s hs).slots⟩

/-- A link whose wiring does not fail draws connections, or its paths lead nowhere. -/
theorem exists_linkConnections {link : Link} (h : link.wiring.Total) (outputs inputs : Scope) :
    ∃ connections, linkConnections outputs inputs link = .ok connections := by
  unfold linkConnections
  cases outputs.resolve link.source with
  | error missing => exact ⟨[], rfl⟩
  | ok source =>
      cases inputs.resolve link.target with
      | error missing => exact ⟨[], rfl⟩
      | ok target =>
          obtain ⟨proposed, hproposed⟩ := h.exists_pairs source.sector.size target.sector.size
          exact ⟨_, Fault.bind_eq_ok_iff.2 ⟨proposed, hproposed, rfl⟩⟩

/-- Proper plans are made, if none of their boxes is refused. -/
theorem exists_makeSlots {plans : List SlotPlan} (h : ∀ p ∈ plans, p.Proper)
    (hheld : ∀ p ∈ plans, p.size.HoldableIfEmpty) (scope : Scope) (side : Side) :
    ∃ made, makeSlots plans scope side = .ok made := by
  obtain ⟨made, hmade⟩ := Loop.mapM_isOk_iff.2 fun p hp =>
    (h p hp).exists_make (hheld p hp) scope side
  exact ⟨_, Fault.bind_eq_ok_iff.2 ⟨made, hmade, rfl⟩⟩

/-- If one of them is refused, the plans are not made for that reason. -/
theorem makeSlots_eq_error {plans : List SlotPlan} (h : ∀ p ∈ plans, p.Proper) {p : SlotPlan}
    (hp : p ∈ plans) (hrefused : ¬ p.size.HoldableIfEmpty) (scope : Scope) (side : Side) :
    ∃ fault, fault.RefusesBox ∧ makeSlots plans scope side = .error fault := by
  cases hmade : plans.mapM fun p => p.make scope side with
  | ok all =>
      obtain ⟨fault, _, hfails⟩ := SlotPlan.make_eq_error hrefused scope side
      obtain ⟨m, hm⟩ := Loop.mapM_isOk_iff.1 ⟨all, hmade⟩ p hp
      rw [hfails] at hm
      cases hm
  | error fault =>
      obtain ⟨q, hq, hfails⟩ := Loop.exists_of_mapM_eq_error hmade
      refine ⟨fault, (h q hq).refuses_of_make hfails, ?_⟩
      rw [makeSlots, hmade, Fault.error_bind]

/-- A regular assembly whose circuits have places is ready, if its planned slots can be held. -/
theorem Regular.ready (h : a.Regular) (hheld : a.Held)
    (hplaced : ∃ places, a.positioner.arrange (Keyed.names a.schemes) = .ok places) : a.Ready where
  accepts := h.accepts
  placed := hplaced
  movable s hs := (h.circuits.circuits s hs).modest.movable
  plans side := ⟨h.distinct side, exists_makeSlots (h.plans side) (hheld side) _ _⟩
  wired link hlink := exists_linkConnections (h.links link hlink) _ _

/-- Compiling is refused for the box of a planned slot. -/
def Refused (a : Assembly) : Prop :=
  ∃ fault a', fault.RefusesBox ∧ compile a = .error fault a'

/-- A regular assembly whose circuits have places is refused if a planned slot cannot be held. -/
theorem Regular.refused (h : a.Regular) (hrefused : ¬ a.Held)
    (hplaced : ∃ places, a.positioner.arrange (Keyed.names a.schemes) = .ok places) :
    a.Refused := by
  obtain ⟨places, hplaces⟩ := hplaced
  have hmovable : ∀ s ∈ a.schemes, s.2.Movable := fun s hs =>
    (h.circuits.circuits s hs).modest.movable
  suffices hlink : ∃ fault, fault.RefusesBox ∧ a.link = .error fault by
    obtain ⟨fault, hrefuses, hlink⟩ := hlink
    refine ⟨fault, { a with consumed := true }, hrefuses, ?_⟩
    rw [compile_of_open h.accepts, hlink]
  have hproperIns : ∀ p ∈ a.inputs, p.Proper := h.plans .input
  have hproperOuts : ∀ p ∈ a.outputs, p.Proper := h.plans .output
  rw [link_eq h.sound, hplaces, Fault.ok_bind, layOut_of_movable h.circuits.names hmovable,
    Fault.ok_bind]
  -- the inputs are made first
  by_cases hinputs : ∀ p ∈ a.inputs, p.size.HoldableIfEmpty
  · obtain ⟨ins, hins⟩ := exists_makeSlots hproperIns hinputs (scope a.schemes .input) .input
    have houtputs : ∃ p ∈ a.outputs, ¬ p.size.HoldableIfEmpty := by
      by_contra hnone
      push Not at hnone
      refine hrefused fun side => ?_
      cases side with
      | input => exact hinputs
      | output => exact hnone
    obtain ⟨p, hp, hsize⟩ := houtputs
    obtain ⟨fault, hrefuses, houts⟩ :=
      makeSlots_eq_error hproperOuts hp hsize (scope a.schemes .output) .output
    refine ⟨fault, hrefuses, ?_⟩
    rw [hins, Fault.ok_bind, houts, Fault.error_bind]
  · push Not at hinputs
    obtain ⟨p, hp, hsize⟩ := hinputs
    obtain ⟨fault, hrefuses, hins⟩ :=
      makeSlots_eq_error hproperIns hp hsize (scope a.schemes .input) .input
    refine ⟨fault, hrefuses, ?_⟩
    rw [hins, Fault.error_bind]

/-- The check of connection counts is on, and a unit has more receivers than the limit. -/
def Crowded (a : Assembly) (units : List Element) : Prop :=
  a.config.checkOverflow = true ∧ ∃ e ∈ units, a.config.maxConnections < (e.wires.length : Int)

/-- No unit is reported exactly if none has more receivers than the limit. -/
theorem overflowing_eq_nil_iff {limit : Int} {units : List Element} :
    overflowing limit units = [] ↔ ¬ ∃ e ∈ units, limit < (e.wires.length : Int) := by
  rw [overflowing, List.filterMap_eq_nil_iff]
  constructor
  · rintro h ⟨e, he, hlimit⟩
    obtain ⟨i, hi⟩ := List.getElem?_of_mem he
    have hnone := h (e, i) (List.mem_zipIdx_iff_getElem?.2 hi)
    simp only [if_pos hlimit] at hnone
    cases hnone
  · rintro h ⟨e, i⟩ he
    exact if_neg fun hlimit => h ⟨e, List.fst_mem_of_mem_zipIdx he, hlimit⟩

/-- Units that are drawn are compiled unless one of them is crowded. -/
theorem Draws.compilesTo_iff (ha : a.Sound) {units : List Element} (h : a.Draws units) :
    a.CompilesTo units ↔ ¬ a.Crowded units := by
  rw [Assembly.compilesTo_iff ha, overflowing_eq_nil_iff, Crowded, not_and]
  exact and_iff_right h

/-- If one of them is, that is the fault. -/
theorem Draws.overflows_iff (ha : a.Sound) {units : List Element} (h : a.Draws units) :
    (∃ found, a.Overflows found) ↔ a.Crowded units := by
  constructor
  · rintro ⟨found, ins, outs, a', hfails⟩
    by_contra hcrowded
    obtain ⟨c, d, a'', hcompile, _⟩ := (h.compilesTo_iff ha).2 hcrowded
    rw [hfails] at hcompile
    cases hcompile
  · rintro ⟨hcheck, hsome⟩
    exact ⟨_, h.overflows ha hcheck fun hnil => overflowing_eq_nil_iff.1 hnil hsome⟩

end Regular

/-! ### Compiling with all conditions checked -/

/-- Every circuit has a place. -/
def checkPlaced (names : List String) (places : Keyed (Point × Turn)) : Except Fault Unit :=
  let missing := names.filter fun name => !Keyed.has name places
  if missing.isEmpty then .ok () else .error (.notPlaced missing)

/-- The planned slots of a side, constructed with all checks. -/
def makeSlotsChecked (plans : List SlotPlan) (scope : Scope) (side : Side) :
    Except Fault (List Slot × Keyed (List Unresolved)) := do
  let made ← plans.mapM fun plan => plan.makeChecked scope side
  let unresolved := made.filter fun m => !m.2.isEmpty
  pure (made.map Prod.fst, unresolved.map fun m => (m.1.name, m.2))

/-- Linking with all conditions checked on the way. -/
def linkChecked (a : Assembly) : Except Fault (Circuit × Diagnostics) := do
  let places ← a.positioner.arrange (Keyed.names a.schemes)
  checkPlaced (Keyed.names a.schemes) places
  let blocks ← layOut places 0 a.schemes
  let inputs := scopeOf blocks .input
  let outputs := scopeOf blocks .output
  let (inputSlots, badInputs) ← makeSlotsChecked a.inputs inputs .input
  let (outputSlots, badOutputs) ← makeSlotsChecked a.outputs outputs .output
  let (units, broken) ← a.links.foldlM (draw outputs inputs) (blocks.flatMap Block.units, [])
  checkFanOut a.config outputs inputs units
  let circuit ← Circuit.build units inputSlots outputSlots
  pure (circuit, ⟨broken, badInputs, badOutputs⟩)

/-- Compiling with all conditions checked on the way. -/
def compileChecked : AssemblyM (Circuit × Diagnostics) := do
  ensureOpen
  modify fun a => { a with consumed := true }
  answer (← get).linkChecked

/-- Proper plans are made without a failing check. -/
theorem makeSlotsChecked_eq {plans : List SlotPlan} (h : ∀ p ∈ plans, p.Proper) (scope : Scope)
    (side : Side) : makeSlotsChecked plans scope side = makeSlots plans scope side := by
  have hmade : plans.mapM (fun plan => plan.makeChecked scope side)
      = plans.mapM fun plan => plan.make scope side :=
    Loop.mapM_congr₂ (List.forall₂_same.2 fun p hp => (h p hp).makeChecked_eq scope side)
  rw [makeSlotsChecked, makeSlots, hmade]

variable {placed : List String} {a : Assembly}

/-- All circuits have places once they are arranged. -/
theorem Places.checkPlaced_eq (h : Places placed a) {places : Keyed (Point × Turn)}
    (hplaces : a.positioner.arrange (Keyed.names a.schemes) = .ok places) :
    checkPlaced (Keyed.names a.schemes) places = .ok () := by
  obtain ⟨p, hp, _, _⟩ := h
  rw [hp] at hplaces
  obtain ⟨_, rfl⟩ := arrange_manual_eq_ok_iff.1 hplaces
  refine if_pos (List.isEmpty_iff.2 (List.filter_eq_nil_iff.2 fun name hname => ?_))
  rw [Bool.not_eq_true', Bool.not_eq_false, Keyed.has_iff, Keyed.names, List.map_map]
  exact List.mem_map.2 ⟨name, hname, rfl⟩

/-- **No check fails on the way that is not made anyway.** -/
theorem Regular.linkChecked_eq (h : a.Regular) (hplaces : Places placed a) :
    a.linkChecked = a.link := by
  unfold linkChecked link
  cases harranged : a.positioner.arrange (Keyed.names a.schemes) with
  | error fault => rfl
  | ok places =>
      have hinputs (scope : Scope) : makeSlotsChecked a.inputs scope .input
          = makeSlots a.inputs scope .input := makeSlotsChecked_eq (h.plans .input) scope .input
      have houtputs (scope : Scope) : makeSlotsChecked a.outputs scope .output
          = makeSlots a.outputs scope .output := makeSlotsChecked_eq (h.plans .output) scope .output
      simp only [Fault.ok_bind, hplaces.checkPlaced_eq harranged, hinputs, houtputs]

/-- Compiling with all conditions checked is compiling. -/
theorem Regular.compileChecked_eq (h : a.Regular) (hplaces : Places placed a) :
    compileChecked a = compile a := by
  have hlink := h.linkChecked_eq hplaces
  obtain ⟨positioner, config, schemes, links, inputs, outputs, consumed⟩ := a
  obtain rfl : consumed = false := h.accepts
  -- the flag that is set in between is not read
  show answer (linkChecked ⟨positioner, config, schemes, links, inputs, outputs, false⟩) _
    = answer (link ⟨positioner, config, schemes, links, inputs, outputs, false⟩) _
  rw [hlink]

/-! ### The outcomes -/

/-- Compiling is refused as the given circuits have no place. -/
def Unplaced (a : Assembly) (gaps : Keyed PlacementGap) : Prop :=
  ∃ a', compile a = .error (.unplaced gaps) a'

/-- A circuit without a place is reported, and all others without one. -/
theorem Places.exists_unplaced (h : Places placed a) (hopen : a.consumed = false)
    (hsome : ∃ name ∈ Keyed.names a.schemes, name ∉ placed) : ∃ gaps, a.Unplaced gaps
      ∧ Keyed.names gaps = (Keyed.names a.schemes).filter fun name => name ∉ placed := by
  obtain ⟨gaps, hfails, hnames⟩ := h.arrange_eq_error hsome
  have hlink : a.link = .error (.unplaced gaps) := by
    rw [link, hfails, Fault.error_bind]
  refine ⟨gaps, ⟨{ a with consumed := true }, ?_⟩, hnames⟩
  rw [compile_of_open hopen, hlink]

/-- An assembly that draws units fails for its connection counts only. -/
theorem Draws.fault_eq (hsound : a.Sound) {units : List Element} (h : a.Draws units) {fault : Fault}
    {a' : Assembly} (hfails : compile a = .error fault a') :
    ∃ ins outs limit found, fault = .fanOut ins outs limit found := by
  by_cases hcrowded : a.Crowded units
  · obtain ⟨found, ins, outs, _, hover⟩ := (h.overflows_iff hsound).2 hcrowded
    rw [hover] at hfails
    cases hfails
    exact ⟨ins, outs, _, found, rfl⟩
  · obtain ⟨_, _, _, hcompile, _⟩ := (h.compilesTo_iff hsound).2 hcrowded
    rw [hcompile] at hfails
    cases hfails

/-- So does one whose circuits have places and whose planned slots can be held. -/
theorem Regular.fault_eq (h : a.Regular) (hheld : a.Held)
    (hplaced : ∃ places, a.positioner.arrange (Keyed.names a.schemes) = .ok places) {fault : Fault}
    {a' : Assembly} (hfails : compile a = .error fault a') :
    ∃ ins outs limit found, fault = .fanOut ins outs limit found := by
  obtain ⟨_, hdraws⟩ := (h.ready hheld hplaced).exists_draws
  exact hdraws.fault_eq h.sound hfails

/-- If all circuits have places, none is reported. -/
theorem Regular.not_unplaced (h : a.Regular)
    (hplaced : ∃ places, a.positioner.arrange (Keyed.names a.schemes) = .ok places)
    (gaps : Keyed PlacementGap) : ¬ a.Unplaced gaps := by
  rintro ⟨a', hfails⟩
  by_cases hheld : a.Held
  · obtain ⟨_, _, _, _, hfault⟩ := h.fault_eq hheld hplaced hfails
    cases hfault
  · obtain ⟨fault, _, hrefuses, hrefused⟩ := h.refused hheld hplaced
    rw [hrefused] at hfails
    cases hfails
    rcases hrefuses with hfault | hfault <;> cases hfault

/-- If all circuits have places, an assembly is refused for a box exactly if a planned slot cannot
be held. -/
theorem Regular.refused_iff (h : a.Regular)
    (hplaced : ∃ places, a.positioner.arrange (Keyed.names a.schemes) = .ok places) :
    a.Refused ↔ ¬ a.Held := by
  refine ⟨?_, fun hrefused => h.refused hrefused hplaced⟩
  rintro ⟨fault, a', hrefuses, hfails⟩ hheld
  obtain ⟨_, _, _, _, rfl⟩ := h.fault_eq hheld hplaced hfails
  rcases hrefuses with hfault | hfault <;> cases hfault

/-- **Compiling has four outcomes.**  An assembly that is built from nothing by admissible calls is
refused for its places exactly if no call gave a place to one of its circuits, and all such circuits
are reported.  Otherwise it is refused for the box of a planned slot exactly if there can be no
array over one that is empty; that cannot be if the calls plan no such slot.  Otherwise it draws
units.  It is refused for its connection counts exactly if these are checked and one of the units
has more receivers than the limit, and compiled to these units exactly if not.  None of the
conditions that constructing the slots checks is ever violated. -/
theorem compile_outcomes {config : CompileConfig} {calls : List Call}
    (h : ∀ call ∈ calls, call.Admissible) {a : Assembly} {placed : List String}
    (ha : a = run calls (empty (.manual .empty) config))
    (hplaced : placed = placedBy calls (empty (.manual .empty) config)) :
    compileChecked a = compile a
      ∧ ((∃ gaps, a.Unplaced gaps) ↔ ∃ name ∈ Keyed.names a.schemes, name ∉ placed)
      ∧ (∀ gaps, a.Unplaced gaps →
        Keyed.names gaps = (Keyed.names a.schemes).filter fun name => name ∉ placed)
      ∧ ((∀ name ∈ Keyed.names a.schemes, name ∈ placed) →
        (a.Refused ↔ ¬ a.Held)
        ∧ (a.Held → ∃ units, a.Draws units
          ∧ ((∃ found, a.Overflows found) ↔ a.Crowded units)
          ∧ (a.CompilesTo units ↔ ¬ a.Crowded units)))
      ∧ ((∀ call ∈ calls, call.Storable) → a.Held) := by
  have hregular : a.Regular := ha ▸ regular_run (regular_empty _ _) h
  have hplaces : Places placed a := by
    have hrun := places_run (places_empty config) calls
    rwa [List.nil_append, ← ha, ← hplaced] at hrun
  have hsome : (∃ gaps, a.Unplaced gaps) → ∃ name ∈ Keyed.names a.schemes, name ∉ placed := by
    rintro ⟨gaps, hgaps⟩
    by_contra hnone
    push Not at hnone
    obtain ⟨places, harranged⟩ := hplaces.exists_arrange hnone
    exact hregular.not_unplaced ⟨places, harranged⟩ gaps hgaps
  refine ⟨hregular.compileChecked_eq hplaces, ⟨hsome, fun hmissing => ?_⟩, fun gaps hgaps => ?_,
    fun hall => ?_, fun hstorable => ha ▸ held_run (stored_empty _ _) hstorable⟩
  · obtain ⟨gaps, hgaps, _⟩ := hplaces.exists_unplaced hregular.accepts hmissing
    exact ⟨gaps, hgaps⟩
  · obtain ⟨others, hothers, hnames⟩ :=
      hplaces.exists_unplaced hregular.accepts (hsome ⟨gaps, hgaps⟩)
    obtain ⟨a', hfails⟩ := hgaps
    obtain ⟨b', hfails'⟩ := hothers
    rw [hfails] at hfails'
    cases hfails'
    exact hnames
  · have harranged := hplaces.exists_arrange hall
    refine ⟨hregular.refused_iff harranged, fun hheld => ?_⟩
    obtain ⟨units, hdraws⟩ := (hregular.ready hheld harranged).exists_draws
    exact ⟨units, hdraws, hdraws.overflows_iff hregular.sound, hdraws.compilesTo_iff hregular.sound⟩

/-- A slot of one point, with a sector of its size. -/
def entrance : SlotPlan :=
  (SlotPlan.Edit.addSector "point" .origin .one none).perform
    ((SlotPlan.Edit.attachFull "source" .straight).perform (.new "in" "bit" .one))

/-- The calls that let one gate feed another, which is given a place before it is added. -/
def feeding : List Call :=
  [.place "sink" ⟨0, 2, 0⟩, .add "source" (.device (.ofPart (.gate .and))), .placeLast .origin,
    .add "sink" (.device (.ofPart (.gate .or))), .rotateLast .quarterZ,
    .connect "source" "sink" (.shift .origin), .plan .input entrance,
    .forward .output "out" "sink/_" none]

/-- The calls that add a third gate and turn it, but give it no place. -/
def straying : List Call :=
  feeding ++ [.add "stray" (.device (.ofPart (.gate .xor))), .rotateLast .quarterX]

/-- Where no connections are allowed, one of two gates is crowded; where one has no place, that one
is reported. -/
theorem compile_outcomes_feeding :
    (∃ units, (run feeding (empty (.manual .empty) ⟨0, true⟩)).Draws units
        ∧ (run feeding (empty (.manual .empty) ⟨0, true⟩)).Crowded units)
      ∧ compileChecked (run straying (empty (.manual .empty) .standard))
        = compile (run straying (empty (.manual .empty) .standard))
      ∧ ∃ gaps, (run straying (empty (.manual .empty) .standard)).Unplaced gaps
        ∧ Keyed.names gaps = ["stray"] := by
  have hgate (mode : GateMode) : (Fragment.device (.ofPart (.gate mode))).Yields Circuit.Regular :=
    fun c hc => Circuit.regular_ofDevice hc
      (by simp [Point.IsModest, Device.ofPart, Part.size, Point.one])
  have hentrance : entrance.Drafted :=
    .edited _ trivial (.edited _ Wiring.Total.straight (.new "in" "bit" .one))
  have hcircuits : ∀ call ∈ straying, ∀ f ∈ call.fragments, f.Yields Circuit.Regular := by
    simp [straying, feeding, Call.fragments, hgate]
  have hwirings : ∀ call ∈ straying, ∀ w ∈ call.wirings, w.Total := by
    simp [straying, feeding, Call.wirings, Wiring.total_shift]
  have hplans : ∀ call ∈ straying, ∀ side p, call = .plan side p → p.Drafted := by
    simp only [straying, feeding, List.cons_append, List.nil_append, List.forall_mem_cons]
    simp [hentrance]
  have hstraying : ∀ call ∈ straying, call.Admissible := fun call hcall =>
    ⟨hcircuits call hcall, hwirings call hcall, hplans call hcall⟩
  have hfeeding : ∀ call ∈ feeding, call.Admissible := fun call hcall =>
    hstraying call (List.mem_append_left _ hcall)
  have hstored (mode : GateMode) : (Fragment.device (.ofPart (.gate mode))).Yields Circuit.Stored :=
    fun c hc => Circuit.stored_ofDevice hc
  have hstorable : ∀ call ∈ feeding, call.Storable := by
    simp only [feeding, List.forall_mem_cons, List.not_mem_nil, false_implies, implies_true,
      and_true]
    refine ⟨?_, ?_, ?_, ?_, ?_, ?_, ?_, ?_⟩
    all_goals refine ⟨by simp [Call.fragments, hstored], fun side p hplan => ?_⟩
    all_goals cases hplan
    exact Size.holdable_one.ifEmpty
  obtain ⟨_, _, _, hall, hheld⟩ := compile_outcomes hfeeding
    (a := run feeding (empty (.manual .empty) ⟨0, true⟩)) rfl rfl
  obtain ⟨units, hdraws, hcrowded, _⟩ := (hall (by decide)).2 (hheld hstorable)
  obtain ⟨hchecked, hmissing, hnames, _⟩ := compile_outcomes hstraying
    (a := run straying (empty (.manual .empty) .standard)) rfl rfl
  obtain ⟨gaps, hgaps⟩ := hmissing.2 (by decide)
  refine ⟨⟨units, hdraws, hcrowded.1 ⟨_, _, _, _, rfl⟩⟩, hchecked, gaps, hgaps, ?_⟩
  exact (hnames gaps hgaps).trans (by decide)

/-- A slot without points, the extents of whose box are moderate. -/
def sheet : SlotPlan := .new "x" "bit" ⟨⟨0, 2 ^ 59, 2 ^ 59⟩, rfl⟩

/-- An assembly with no circuit that could lack a place and no unit that could have too many
receivers is refused, as there can be no array over an empty slot. -/
theorem compile_sheet : (Call.plan .input sheet).Admissible
    ∧ compile (run [.plan .input sheet] (empty (.manual .empty) .standard))
      = .error .boxTooLarge
          { run [.plan .input sheet] (empty (.manual .empty) .standard) with consumed := true } := by
  refine ⟨⟨by simp [Call.fragments], by simp [Call.wirings], fun side p hplan => ?_⟩, rfl⟩
  cases hplan
  exact .new _ _ _

end Assembly

end Breadboard
