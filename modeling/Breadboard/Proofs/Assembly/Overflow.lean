import Breadboard.Proofs.Assembly.Ready
import Breadboard.Proofs.Assembly.Renumbered

/-!
**What a refusal for connection counts reports.**

Connection counts are checked when the circuits stand, the planned slots are made and all
connections are drawn, and no later step can fail.  So a report can be held against the circuit that
the same assembly is compiled to without the check: it names the units by the numbers that they have
there, and the slots by paths, where the references of a slot count from the first unit of its own
circuit.  No other step reports connection counts, unless the function of a wiring does.

Main definitions:

* `Circuit.SlotsChecked` — the slots of a circuit pass the checks of its construction;
* `Assembly.Coherent` — what calls keep that offer such circuits;
* `Assembly.Exceeds` — a list names the units of more receivers than the limit, in order;
* `Assembly.Lists` — a list names the slots that address one of given units, in order.

Main results:

* `Assembly.coherent_run` — whatever is built by such calls is coherent;
* `Assembly.exceeds_overflowing`, `Assembly.lists_reaching` — what the check reports;
* `Assembly.Coherent.draws_of_fanOut` — **only the check refuses an assembly for its counts**;
* `Assembly.overflow_reported` — **the report names exactly the offenders**.
-/

set_option autoImplicit false
set_option relaxedAutoImplicit false

namespace Breadboard

/-- The slots of a circuit address its units, and those of a side have different names. -/
structure Circuit.SlotsChecked (c : Circuit) : Prop where
  inRange : c.SlotsInRange
  names : ∀ side, ((c.slots side).map Slot.name).Nodup

namespace Assembly

/-! ### Coherent assemblies -/

/-- The assembly accepts calls, its circuits have different names and checked slots, and the plans
of a side have different names. -/
structure Coherent (a : Assembly) : Prop where
  accepts : a.consumed = false
  circuits : a.Holds Circuit.SlotsChecked
  distinct : ∀ side, ((a.plans side).map SlotPlan.name).Nodup

theorem coherent_empty (positioner : Positioner) (config : CompileConfig) :
    (empty positioner config).Coherent where
  accepts := rfl
  circuits := holds_empty positioner config
  distinct side := by cases side <;> exact List.nodup_nil

section Coherent

variable {a b : Assembly}

theorem Coherent.sound (h : a.Coherent) : a.Sound :=
  ⟨h.circuits.names, fun s hs => (h.circuits.circuits s hs).inRange⟩

/-- A change that plans nothing keeps the plans. -/
theorem Coherent.change (h : a.Coherent) (hconsumed : b.consumed = a.consumed)
    (hplans : ∀ side, b.plans side = a.plans side) (hcircuits : b.Holds Circuit.SlotsChecked) :
    b.Coherent where
  accepts := hconsumed.trans h.accepts
  circuits := hcircuits
  distinct side := hplans side ▸ h.distinct side

/-- One more plan of a new name. -/
theorem Coherent.pushPlan (h : a.Coherent) {side : Side} {p : SlotPlan}
    (hnew : p.name ∉ (a.plans side).map SlotPlan.name) : (a.pushPlan side p).Coherent where
  accepts := by cases side <;> exact h.accepts
  circuits := h.circuits.of_schemes_eq (by cases side <;> rfl)
  distinct := nodup_names_pushPlan h.distinct hnew

/-- Every call keeps an assembly coherent, whether it fails or not, if the slots of the circuits
that it offers were checked. -/
theorem Call.keeps_coherent {call : Call}
    (h : ∀ f ∈ call.fragments, f.Yields Circuit.SlotsChecked) : Keeps Coherent call.perform := by
  refine keeps_of_change fun a b ha hchange => ?_
  have hsame (b : Assembly) (hschemes : b.schemes = a.schemes) : b.Holds Circuit.SlotsChecked :=
    ha.circuits.of_schemes_eq hschemes
  cases hchange with
  | checked => exact ha.change rfl (fun side => by cases side <;> rfl) (hsame _ rfl)
  | added _ hoffered hyields hnew =>
      refine ha.change rfl (fun side => by cases side <;> rfl) ?_
      exact ha.circuits.concat (h _ hoffered _ hyields) hnew rfl
  | connected => exact ha.change rfl (fun side => by cases side <;> rfl) (hsame _ rfl)
  | arranged => exact ha.change rfl (fun side => by cases side <;> rfl) (hsame _ rfl)
  | planned _ hnew => exact ha.pushPlan hnew
  | forwarded _ _ _ hnew => exact ha.pushPlan hnew

/-- Whatever is built by such calls is coherent. -/
theorem coherent_run {calls : List Call} (ha : a.Coherent)
    (h : ∀ call ∈ calls, ∀ f ∈ call.fragments, f.Yields Circuit.SlotsChecked) :
    (run calls a).Coherent :=
  run_of_keeps ha fun call hcall => Call.keeps_coherent (h call hcall)

end Coherent

/-! ### Units that are reported -/

/-- A list names exactly the units of more receivers than the limit, in order, with the numbers of
their receivers. -/
structure Exceeds (limit : Int) (units : List Element) (found : List (Nat × Nat)) : Prop where
  mem_iff : ∀ i n, (i, n) ∈ found ↔
    ∃ e, units[i]? = some e ∧ limit < (e.wires.length : Int) ∧ e.wires.length = n
  increasing : found.Pairwise fun u v => u.1 < v.1

/-- The check finds such units. -/
theorem exceeds_overflowing (limit : Int) (units : List Element) :
    Exceeds limit units (overflowing limit units) where
  mem_iff i n := mem_overflowing
  increasing := by
    have hnumbers : (units.zipIdx.map Prod.snd).Pairwise fun i j : Nat => i < j := by
      rw [List.zipIdx_map_snd]
      exact List.pairwise_lt_range'
    refine List.pairwise_filterMap.2 ((List.pairwise_map.1 hnumbers).imp ?_)
    intro u v hlt x hx y hy
    rw [Option.ite_none_right_eq_some] at hx hy
    rw [← Option.some.inj hx.2, ← Option.some.inj hy.2]
    exact hlt

/-! ### Slots that are reported -/

/-- The slots of a side of all circuits, each with the name of its circuit, in the order in which
the circuits were added. -/
def slotsOf (schemes : Keyed Circuit) (side : Side) : List (String × Slot) :=
  schemes.flatMap fun s => (s.2.slots side).map fun slot => (s.1, slot)

/-- The slot of a circuit addresses one of the given units at some point. -/
def Touches (schemes : Keyed Circuit) (found : List (Nat × Nat)) (s : String × Slot) : Prop :=
  ∃ p, ∃ i ∈ s.2.getPoint p, ∃ u ∈ found, (u.1 : Int) = i + offset schemes s.1

/-- A list of paths names exactly the slots of a side that address one of the given units, in order
and none of them twice. -/
def Lists (schemes : Keyed Circuit) (side : Side) (found : List (Nat × Nat))
    (paths : List String) : Prop :=
  ∃ reported : List (String × Slot), reported.Sublist (slotsOf schemes side)
    ∧ (reported.map fun s => (s.1, s.2.name)).Nodup
    ∧ (∀ s ∈ slotsOf schemes side, s ∈ reported ↔ Touches schemes found s)
    ∧ paths = reported.map fun s => s.1 ++ "/" ++ s.2.name

/-- Slots have different names, those of different circuits by the names of the circuits. -/
theorem nodup_slotsOf {schemes : Keyed Circuit} (hnames : (Keyed.names schemes).Nodup) {side : Side}
    (hslots : ∀ s ∈ schemes, ((s.2.slots side).map Slot.name).Nodup) :
    ((slotsOf schemes side).map fun s => (s.1, s.2.name)).Nodup := by
  rw [slotsOf, List.map_flatMap, List.nodup_flatMap]
  constructor
  · intro s hs
    have hside := (hslots s hs).map (Prod.mk_right_injective s.1)
    rwa [List.map_map] at hside ⊢
  · refine (List.pairwise_map.1 hnames).imp fun {s t} hne => ?_
    intro key hkey hkey'
    simp only [List.map_map, List.mem_map, Function.comp_apply] at hkey hkey'
    obtain ⟨_, _, rfl⟩ := hkey
    obtain ⟨_, _, hkey'⟩ := hkey'
    exact hne (Prod.mk.inj hkey').1.symm

/-- The check lists such slots. -/
theorem lists_reaching {schemes : Keyed Circuit} (hnames : (Keyed.names schemes).Nodup) {side : Side}
    (hslots : ∀ s ∈ schemes, ((s.2.slots side).map Slot.name).Nodup) (found : List (Nat × Nat)) :
    Lists schemes side found (reaching found (scope schemes side)) := by
  refine ⟨(slotsOf schemes side).filter fun s => s.2.connectedIds.any fun i =>
      found.any fun u => (u.1 : Int) == i + offset schemes s.1, List.filter_sublist, ?_,
    fun s hs => ?_, ?_⟩
  · exact (nodup_slotsOf hnames hslots).sublist (List.filter_sublist.map _)
  · rw [List.mem_filter, and_iff_right hs]
    simp only [Touches, List.any_eq_true, beq_iff_eq, Slot.connectedIds,
      Sorted.mem_ofList Sorted.isOrder_intLt, Slot.mem_flatten_values]
    constructor
    · rintro ⟨i, ⟨p, hi⟩, hu⟩
      exact ⟨p, i, hi, hu⟩
    · rintro ⟨p, i, hi, hu⟩
      exact ⟨i, ⟨p, hi⟩, hu⟩
  · rw [reaching, scope, slotsOf, List.flatMap_map, List.filter_flatMap, List.map_flatMap]
    refine List.flatMap_congr fun s _ => ?_
    rw [List.filter_map, List.map_map]
    rfl

/-! ### Where connection counts are reported -/

/-- The wirings of an assembly, of its links and of the entries of its plans. -/
def wirings (a : Assembly) : List Wiring :=
  a.links.map Link.wiring
    ++ (a.inputs ++ a.outputs).flatMap fun p => p.entries.map PlanEntry.wiring

/-- A wiring of the assembly fails on its own, between boxes of some sizes. -/
def WiringFails (a : Assembly) (fault : Fault) : Prop :=
  ∃ w ∈ a.wirings, ∃ start stop, w.pairs start stop = .error fault

section Reports

variable {a : Assembly} {ins outs : List String} {limit : Int} {found : List (Nat × Nat)}
  {fault : Fault}

/-- A planned slot is not made only if its box is refused or the wiring of an entry fails. -/
theorem exists_of_make_eq_error {plan : SlotPlan} {scope : Scope} {side : Side}
    (h : plan.make scope side = .error fault) : fault.RefusesBox
      ∨ ∃ entry ∈ plan.entries, ∃ start stop, entry.wiring.pairs start stop = .error fault := by
  rw [SlotPlan.make_eq] at h
  rcases Fault.bind_eq_error_iff.1 h with hsize | ⟨_, _, h⟩
  · have hrefused : ¬ plan.size.HoldableIfEmpty := fun hheld => by
      rw [Size.checkEmpty_eq_ok_iff.2 hheld] at hsize
      cases hsize
    obtain ⟨other, hrefuses, hother⟩ := Size.checkEmpty_eq_error hrefused
    obtain rfl : fault = other := Except.error.inj (hsize.symm.trans hother)
    exact .inl hrefuses
  refine .inr ?_
  rcases Fault.bind_eq_error_iff.1 h with hitems | ⟨_, _, h⟩
  · obtain ⟨entry, hentry, hcells⟩ := Loop.exists_of_mapM_eq_error hitems
    refine ⟨entry, hentry, ?_⟩
    unfold SlotPlan.entryCells at hcells
    split at hcells
    · cases hcells
    · rcases Fault.bind_eq_error_iff.1 hcells with hpairs | ⟨_, _, hcells⟩
      · cases side <;> rcases Fault.bind_eq_error_iff.1 hpairs with hproposed | ⟨_, _, hpairs⟩
        · exact ⟨_, _, hproposed⟩
        · cases hpairs
        · exact ⟨_, _, hproposed⟩
        · cases hpairs
      · cases hcells
  · cases h

/-- The planned slots of a side are refused for connection counts only if a wiring of the assembly
refuses them. -/
theorem wiringFails_of_makeSlots (side : Side) {scope : Scope}
    (h : makeSlots (a.plans side) scope side = .error (.fanOut ins outs limit found)) :
    a.WiringFails (.fanOut ins outs limit found) := by
  rcases Fault.bind_eq_error_iff.1 h with hmade | ⟨_, _, h⟩
  · obtain ⟨p, hp, hmake⟩ := Loop.exists_of_mapM_eq_error hmade
    obtain ⟨entry, hentry, hfails⟩ := (exists_of_make_eq_error hmake).resolve_left
      (by simp [Fault.RefusesBox])
    have hplans : p ∈ a.inputs ++ a.outputs := by
      cases side with
      | input => exact List.mem_append_left _ hp
      | output => exact List.mem_append_right _ hp
    exact ⟨entry.wiring, List.mem_append_right _ (List.mem_flatMap.2
      ⟨p, hplans, List.mem_map_of_mem hentry⟩), hfails⟩
  · cases h

/-- The connections of the links are not found only if a wiring of the assembly fails. -/
theorem wiringFails_of_links {outputs inputs : Scope}
    (h : a.links.mapM (linkConnections outputs inputs) = .error fault) : a.WiringFails fault := by
  obtain ⟨link, hlink, hconnections⟩ := Loop.exists_of_mapM_eq_error h
  refine ⟨link.wiring, List.mem_append_left _ (List.mem_map_of_mem hlink), ?_⟩
  unfold linkConnections at hconnections
  split at hconnections
  · rcases Fault.bind_eq_error_iff.1 hconnections with hpairs | ⟨_, _, hconnections⟩
    · exact ⟨_, _, hpairs⟩
    · cases hconnections
  · cases hconnections

/-- Circuits without places are not reported as connection counts. -/
theorem arrange_ne_fanOut (positioner : Positioner) (names : List String) :
    positioner.arrange names ≠ .error (.fanOut ins outs limit found) := by
  intro h
  unfold Positioner.arrange at h
  split at h
  · dsimp only at h
    split at h <;> cases h
  · split at h
    · dsimp only at h
      split at h <;> cases h
    · cases h

/-- Circuits that cannot be moved are not reported as connection counts. -/
theorem layOut_ne_fanOut {schemes : Keyed Circuit} (hnames : (Keyed.names schemes).Nodup)
    (places : Keyed (Point × Turn)) (base : Int) :
    layOut places base schemes ≠ .error (.fanOut ins outs limit found) := by
  by_cases h : ∀ s ∈ schemes, s.2.Movable
  · rw [layOut_of_movable hnames h]
    nofun
  · push Not at h
    rw [layOut_of_not_movable h]
    nofun

/-- **Only the check refuses an assembly for its connection counts**, unless a wiring does; by then
all units are drawn. -/
theorem Coherent.draws_of_fanOut (h : a.Coherent)
    (hlink : a.link = .error (.fanOut ins outs limit found)) :
    a.WiringFails (.fanOut ins outs limit found) ∨ ∃ units, a.Draws units
      ∧ checkFanOut a.config (scope a.schemes .output) (scope a.schemes .input) units
        = .error (.fanOut ins outs limit found) := by
  have hstages := hlink
  rw [link_eq h.sound] at hstages
  rcases Fault.bind_eq_error_iff.1 hstages with hfails | ⟨places, hplaces, hstages⟩
  · exact absurd hfails (arrange_ne_fanOut _ _)
  rcases Fault.bind_eq_error_iff.1 hstages with hfails | ⟨blocks, hblocks, hstages⟩
  · exact absurd hfails (layOut_ne_fanOut h.circuits.names _ _)
  rcases Fault.bind_eq_error_iff.1 hstages with hfails | ⟨madeIns, hins, hstages⟩
  · exact .inl (wiringFails_of_makeSlots .input hfails)
  rcases Fault.bind_eq_error_iff.1 hstages with hfails | ⟨madeOuts, houts, hstages⟩
  · exact .inl (wiringFails_of_makeSlots .output hfails)
  rcases Fault.bind_eq_error_iff.1 hstages with hfails | ⟨connections, hdrawn, hstages⟩
  · exact .inl (wiringFails_of_links hfails)
  have hready : a.Ready :=
    { accepts := h.accepts
      placed := ⟨places, hplaces⟩
      movable := movable_of_layOut hblocks
      plans := fun side => ⟨h.distinct side, by cases side <;> exact ⟨_, by assumption⟩⟩
      wired := Loop.mapM_isOk_iff.1 ⟨connections, hdrawn⟩ }
  have hdraws : a.Draws (attach connections.flatten (laidOut a.schemes places)) :=
    ⟨hready, places, connections, hplaces, hdrawn, rfl⟩
  rcases Fault.bind_eq_error_iff.1 hstages with hfails | ⟨_, hpasses, _⟩
  · exact .inr ⟨_, hdraws, hfails⟩
  · -- once the check has passed, nothing is refused any more
    obtain ⟨_, _, _, hcompile, _⟩ :=
      hdraws.compilesTo h.sound (checkFanOut_eq_ok_iff.1 hpasses)
    rw [compile_of_open h.accepts, hlink] at hcompile
    cases hcompile

end Reports

/-! ### The same assembly without the check -/

/-- The assembly, but its connection counts are not checked. -/
def unchecked (a : Assembly) : Assembly :=
  { a with config := { a.config with checkOverflow := false } }

section Unchecked

variable {a : Assembly} {units : List Element}

/-- Compiling after the check was turned off. -/
theorem setCheck_false_compile (h : a.consumed = false) :
    (do setCheck false; compile : AssemblyM (Circuit × Diagnostics)) a = compile a.unchecked := by
  have hset : setCheck false a = .ok () a.unchecked := by
    rw [setCheck, Loop.bind_of_ok (ensureOpen_of_open h)]
    rfl
  exact Loop.bind_of_ok hset

/-- The check plays no part in what is drawn. -/
theorem Draws.unchecked (h : a.Draws units) : a.unchecked.Draws units := by
  obtain ⟨hready, hunits⟩ := h
  refine ⟨⟨hready.accepts, hready.placed, hready.movable, fun side => ?_, hready.wired⟩, hunits⟩
  cases side with
  | input => exact hready.plans .input
  | output => exact hready.plans .output

/-- The receivers of a unit are its own, renumbered, and behind them what each link gives it. -/
def Wired (a : Assembly) (units : List Element) : Prop :=
  units.length = unitCount a.schemes ∧ ∀ name circuit, (name, circuit) ∈ a.schemes →
    ∀ i e, circuit.units[i]? = some e → ∃ u, units[offset a.schemes name + i]? = some u
      ∧ u.wires = (e.wires.map fun w => w + offset a.schemes name)
        ++ a.links.flatMap (sent a.schemes name i)

theorem Draws.wired (ha : a.Sound) (h : a.Draws units) : a.Wired units := by
  obtain ⟨_, places, connections, _, hdrawn, rfl⟩ := h
  refine ⟨by rw [length_attach, length_laidOut], fun name circuit hmem i e he => ?_⟩
  have hi : i < circuit.units.length := (List.getElem?_eq_some_iff.1 he).1
  have hlaid : (laidOut a.schemes places)[offset a.schemes name + i]?
      = (seated places (offset a.schemes name) (name, circuit))[i]? :=
    getElem?_flatMap_offset (fun s _ => length_seated places _ s) ha.names hmem hi
  rw [getElem?_attach, hlaid, seated, List.getElem?_map, he]
  refine ⟨_, rfl, ?_⟩
  rw [Int.natCast_add, receivers_flatten ha.names ha.slots hmem hi hdrawn]
  rfl

end Unchecked

/-! ### The report -/

/-- **The report names exactly the offenders.**  If an assembly that was built by calls, which offer
circuits with checked slots, is refused for its connection counts, then a wiring refuses it on its
own, or the counts are checked and these are the assembly's limit and the following lists.  Once the
check is turned off, the same assembly is compiled, and the receivers of each unit of the result are
its own and those that the links give it.  The units of more receivers than the limit are listed
with the numbers of these, in order, and so are the paths of the input and of the output slots of
all circuits that address such a unit at some point. -/
theorem overflow_reported {positioner : Positioner} {config : CompileConfig} {calls : List Call}
    (h : ∀ call ∈ calls, ∀ f ∈ call.fragments, f.Yields Circuit.SlotsChecked) {a : Assembly}
    (ha : a = run calls (empty positioner config)) {ins outs : List String} {limit : Int}
    {found : List (Nat × Nat)} {a' : Assembly}
    (hfails : compile a = .error (.fanOut ins outs limit found) a') :
    a.WiringFails (.fanOut ins outs limit found)
    ∨ a.config.checkOverflow = true ∧ limit = a.config.maxConnections
      ∧ ∃ c d a'', (do setCheck false; compile : AssemblyM (Circuit × Diagnostics)) a
          = .ok (c, d) a''
        ∧ a.Wired c.units ∧ Exceeds limit c.units found ∧ found ≠ []
        ∧ Lists a.schemes .input found ins ∧ Lists a.schemes .output found outs := by
  have hcoherent : a.Coherent := ha ▸ coherent_run (coherent_empty _ _) h
  have hlink : a.link = .error (.fanOut ins outs limit found) := by
    rw [compile_of_open hcoherent.accepts] at hfails
    cases hlinked : a.link with
    | ok r =>
        rw [hlinked] at hfails
        cases hfails
    | error fault =>
        rw [hlinked] at hfails
        exact congrArg _ (EStateM.Result.error.inj hfails).1
  refine (hcoherent.draws_of_fanOut hlink).imp_right ?_
  rintro ⟨units, hdraws, hcheck⟩
  obtain ⟨hon, hsome, hreport⟩ := (checkFanOut_eq_error_iff _ _).1 hcheck
  cases hreport
  -- without the check nothing is refused, and the units are those that were checked
  have hsound : a.unchecked.Sound := ⟨hcoherent.sound.names, hcoherent.sound.slots⟩
  obtain ⟨c, d, a'', hcompile, rfl⟩ := hdraws.unchecked.compilesTo hsound nofun
  have hnames := hcoherent.circuits.names
  have hslots (side : Side) : ∀ s ∈ a.schemes, ((s.2.slots side).map Slot.name).Nodup :=
    fun s hs => (hcoherent.circuits.circuits s hs).names side
  exact ⟨hon, rfl, c, d, a'', (setCheck_false_compile hcoherent.accepts).trans hcompile,
    hdraws.wired hcoherent.sound, exceeds_overflowing _ _, hsome,
    lists_reaching hnames (hslots .input) _, lists_reaching hnames (hslots .output) _⟩

theorem slotsChecked_twoGates : twoGates.SlotsChecked where
  inRange := sound_ring.slots _ List.mem_cons_self
  names side := by cases side <;> exact List.nodup_singleton _

/-- The calls that let the second of two circuits send to the first. -/
def backward : List Call :=
  [.add "left" (.circuit twoGates), .placeLast .origin, .add "right" (.circuit twoGates),
    .placeLast ⟨9, 0, 0⟩, .connect "right" "left" .straight]

/-- The first unit of the second circuit has one receiver of its own and is given four more, as it
stands twice behind the point of its slot. -/
theorem overflow_reported_backward :
    ∃ a', compile (run backward (empty (.manual .empty) ⟨2, true⟩))
        = .error (.fanOut ["right/_"] ["right/_"] 2 [(2, 5)]) a'
      ∧ ∃ c d a'', (do setCheck false; compile : AssemblyM (Circuit × Diagnostics))
          (run backward (empty (.manual .empty) ⟨2, true⟩)) = .ok (c, d) a''
        ∧ ∃ e, c.units[2]? = some e ∧ e.wires.length = 5 := by
  obtain ⟨a', hfails⟩ : ∃ a', compile (run backward (empty (.manual .empty) ⟨2, true⟩))
      = .error (.fanOut ["right/_"] ["right/_"] 2 [(2, 5)]) a' := ⟨_, rfl⟩
  have hoffered : ∀ call ∈ backward, ∀ f ∈ call.fragments, f.Yields Circuit.SlotsChecked := by
    simp [backward, Call.fragments, Fragment.yields_circuit slotsChecked_twoGates]
  refine ⟨a', hfails, ?_⟩
  rcases overflow_reported hoffered rfl hfails with ⟨w, hw, start, stop, hpairs⟩ | hreport
  · -- the only wiring proposes pairs
    obtain rfl : w = .straight := List.mem_singleton.1 hw
    cases hpairs
  · obtain ⟨_, _, c, d, a'', hcompile, _, hexceeds, _⟩ := hreport
    obtain ⟨e, he, _, hlength⟩ := (hexceeds.mem_iff 2 5).1 (by decide)
    exact ⟨c, d, a'', hcompile, e, he, hlength⟩

end Assembly

end Breadboard
