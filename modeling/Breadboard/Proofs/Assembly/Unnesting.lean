import Breadboard.Proofs.Assembly.Nesting
import Breadboard.Proofs.Assembly.Ready

/-!
**Compiling an assembly without the assemblies inside it.**

The units of a circuit that is compiled and then added are moved twice, and their connections are
shifted twice.  Moving them once, from the place where they stand in the inner assembly seen from
where its corner comes to stand, gives the same; so before the outer links are drawn both assemblies
have the same units, and these links connect the same.

Main definitions:

* `Assembly.Seats` — the places of the circuits of both assemblies.

Main results:

* `Assembly.laidOut_flat` — before links are drawn, the units are those with the inner links drawn;
* `Assembly.draws_flat_iff` — both assemblies draw the same units;
* `Assembly.compile_flattened` — **both assemblies are compiled to the same units**.
-/

set_option autoImplicit false
set_option relaxedAutoImplicit false

namespace Breadboard

open Renumbering (along)

namespace Assembly

/-! ### Places in both assemblies -/

section Units

variable {inner outer flat : Assembly} {c : Circuit} {name : String} {place : Point}
  {rename : String → String} {innerPlaces outerPlaces flatPlaces : Keyed (Point × Turn)}

/-- The places of the circuits of both assemblies. -/
structure Seats (inner outer : Assembly) (c : Circuit) (name : String) (place : Point)
    (rename : String → String) (innerPlaces outerPlaces flatPlaces : Keyed (Point × Turn)) :
    Prop where
  nested : seat outerPlaces name = (place, .identity)
  others : ∀ other ∈ Keyed.names outer.schemes, other ≠ name →
    seat flatPlaces other = seat outerPlaces other
  parts : ∀ part ∈ Keyed.names inner.schemes, seat flatPlaces (rename part)
    = (place + (seat innerPlaces part).1 - c.corner, (seat innerPlaces part).2)

/-- Assemblies whose circuits all have places have them so. -/
theorem Flattens.seats (h : Flattens inner c name place rename outer flat) (houter : outer.Sound)
    (hinnerPlaces : inner.positioner.arrange (Keyed.names inner.schemes) = .ok innerPlaces)
    (houterPlaces : outer.positioner.arrange (Keyed.names outer.schemes) = .ok outerPlaces)
    (hflatPlaces : flat.positioner.arrange (Keyed.names flat.schemes) = .ok flatPlaces)
    (hcount : c.units.length = unitCount inner.schemes) :
    Seats inner outer c name place rename innerPlaces outerPlaces flatPlaces := by
  obtain ⟨p, q, r, hp, hq, hr, hnested, hothers, hparts⟩ := h.poses
  rw [hp] at hinnerPlaces
  rw [hq] at houterPlaces
  rw [hr] at hflatPlaces
  refine ⟨?_, fun other hother hne => ?_, fun part hpart => ?_⟩
  · exact seat_of_pose houterPlaces (List.mem_map_of_mem (f := Prod.fst) h.mem) hnested
  · obtain ⟨⟨_, d⟩, hmem, rfl⟩ := List.mem_map.1 hother
    obtain ⟨place', turn', hfound, hseat⟩ := exists_pose houterPlaces hother
    rw [hseat]
    exact seat_of_pose hflatPlaces (List.mem_map_of_mem (h.other houter hcount hne hmem).1)
      ((hothers _ hother hne).trans hfound)
  · obtain ⟨⟨_, d⟩, hmem, rfl⟩ := List.mem_map.1 hpart
    obtain ⟨place', turn', hfound, hseat⟩ := exists_pose hinnerPlaces hpart
    rw [hseat]
    refine seat_of_pose hflatPlaces (List.mem_map_of_mem (h.part houter hmem).1) ?_
    rw [hparts _ hpart, hfound]
    rfl

/-! ### Units in both assemblies -/

/-- Units that none of the given connections start from are given no receivers. -/
theorem receivers_connectionsBehind_eq_nil {n : Nat} {connections : List (Int × Int)}
    (h : ∀ pair ∈ connections, 0 ≤ pair.1 ∧ pair.1 < n) (units : Nat) {unit : Int}
    (hunit : ∀ j < n, unit ≠ (units + j : Nat)) :
    receivers (connectionsBehind units connections) unit = [] := by
  rw [receivers, List.map_eq_nil_iff, List.filter_eq_nil_iff]
  intro moved hmoved
  obtain ⟨pair, hpair, rfl⟩ := List.mem_map.1 hmoved
  obtain ⟨h0, hlt⟩ := h pair hpair
  rw [Prod.map_fst, beq_iff_eq, along]
  exact fun e => hunit pair.1.toNat (by omega) e.symm

/-- The receivers of a unit of the inner assembly stand behind the units before it as well. -/
theorem receivers_connectionsBehind {n : Nat} {connections : List (Int × Int)}
    (h : ∀ pair ∈ connections, (0 ≤ pair.1 ∧ pair.1 < n) ∧ 0 ≤ pair.2 ∧ pair.2 < n) (units : Nat)
    {i : Nat} (hi : i < n) : receivers (connectionsBehind units connections) (units + i : Nat)
      = (receivers connections i).map fun j => j + (units : Int) := by
  have hmoved := receivers_renumbers (π := fun k => units + k) (n := n)
    (fun k _ l _ e => Nat.add_left_cancel e) (fun pair hpair => (h pair hpair).1) hi
  rw [connectionsBehind, hmoved]
  refine List.map_congr_left fun j hj => ?_
  obtain ⟨pair, hpair, rfl⟩ := List.mem_map.1 hj
  obtain ⟨h0, _⟩ := (h pair (List.mem_filter.1 hpair).1).2
  rw [along]
  omega

/-- A unit that is moved twice, the second time without a turn, and is given receivers in between is
moved once. -/
theorem relocated_relocated (corner corner' place own : Point) (t : Turn) (units units' : Nat)
    (given : List Int) (e : Element) :
    Circuit.relocated corner place .identity units
        { Circuit.relocated corner' own t units' e with
          wires := (e.wires.map fun w => w + (units' : Int)) ++ given }
      = { Circuit.relocated corner' (place + own - corner) t (units + units' : Nat) e with
          wires := (e.wires.map fun w => w + ((units + units' : Nat) : Int))
            ++ given.map fun w => w + (units : Int) } := by
  simp only [Circuit.relocated, Device.shiftWires, Turn.act_identity, Turn.identity_after,
    Element.mk.injEq, Device.mk.injEq, List.map_append, List.map_map, true_and, and_true]
  constructor
  · refine congrArg₂ _ (List.map_congr_left fun w _ => ?_) rfl
    rw [Function.comp_apply, Int.natCast_add]
    omega
  · simp only [Point.add_def, Point.sub_def, Point.mk.injEq]
    omega

section Laid

variable (h : Flattens inner c name place rename outer flat) (houter : outer.Sound)
  {connections : List (Int × Int)}
  (hunits : c.units = attach connections (laidOut inner.schemes innerPlaces))
  (hconnections : ∀ pair ∈ connections, (0 ≤ pair.1 ∧ pair.1 < unitCount inner.schemes)
    ∧ 0 ≤ pair.2 ∧ pair.2 < unitCount inner.schemes)
  (hseats : Seats inner outer c name place rename innerPlaces outerPlaces flatPlaces)
include h houter hunits hconnections hseats

/-- A unit of another circuit stands where it stood, and no inner link starts from it. -/
theorem getElem?_laidOut_other {other : String} {d : Circuit} (hne : other ≠ name)
    (hother : (other, d) ∈ outer.schemes) {i : Nat} (hi : i < d.units.length) :
    (laidOut outer.schemes outerPlaces)[offset flat.schemes other + i]?
      = (attach (connectionsBehind (offset outer.schemes name) connections)
          (laidOut flat.schemes flatPlaces))[offset flat.schemes other + i]? := by
  have hcount : c.units.length = unitCount inner.schemes := by
    rw [hunits, length_attach, length_laidOut]
  obtain ⟨hflat, hsame⟩ := h.other houter hcount hne hother
  have hapart (j : Nat) (hj : j < unitCount inner.schemes) :
      (offset outer.schemes other : Int) + i ≠ (offset outer.schemes name + j : Nat) :=
    fun e => hne ((offset_add_inj houter.names hother h.mem hi (hcount ▸ hj)).1
      (by exact_mod_cast e)).1
  have hfree := receivers_connectionsBehind_eq_nil
    (fun pair hpair => (hconnections pair hpair).1) (offset outer.schemes name) hapart
  rw [← attach_nil (laidOut outer.schemes outerPlaces),
    getElem?_linked flatPlaces _ h.names hflat hi, hsame,
    getElem?_linked outerPlaces _ houter.names hother hi, hfree,
    hseats.others other (List.mem_map_of_mem hother) hne]
  rfl

/-- A unit of an inner circuit is first placed there, and then with all of them. -/
theorem getElem?_laidOut_part (hinner : inner.Sound) {part : String} {d : Circuit}
    (hpart : (part, d) ∈ inner.schemes) {i : Nat} (hi : i < d.units.length) :
    (laidOut outer.schemes outerPlaces)[offset flat.schemes (rename part) + i]?
      = (attach (connectionsBehind (offset outer.schemes name) connections)
          (laidOut flat.schemes flatPlaces))[offset flat.schemes (rename part) + i]? := by
  have hcount : c.units.length = unitCount inner.schemes := by
    rw [hunits, length_attach, length_laidOut]
  obtain ⟨hflat, hoffset⟩ := h.part houter hpart
  have hj : offset inner.schemes part + i < unitCount inner.schemes :=
    offset_add_lt hpart hinner.names hi
  have hgiven := receivers_connectionsBehind hconnections (offset outer.schemes name) hj
  rw [← attach_nil (laidOut outer.schemes outerPlaces),
    getElem?_linked flatPlaces _ h.names hflat hi, hoffset, Nat.add_assoc,
    getElem?_linked outerPlaces _ houter.names h.mem (hcount ▸ hj), hunits,
    getElem?_linked innerPlaces _ hinner.names hpart hi, Option.map_map, hseats.nested,
    hseats.parts part (List.mem_map_of_mem hpart)]
  refine congrArg₂ _ (funext fun e => ?_) rfl
  rw [Function.comp_apply]
  simp only [← Int.natCast_add, Nat.add_assoc, hgiven,
    show ∀ unit, receivers [] unit = [] from fun _ => rfl, List.append_nil]
  exact relocated_relocated c.corner d.corner place _ _ _ _ _ e

/-- **Before links are drawn, the units are those with the inner links drawn.** -/
theorem laidOut_flat (hinner : inner.Sound) : laidOut outer.schemes outerPlaces
    = attach (connectionsBehind (offset outer.schemes name) connections)
        (laidOut flat.schemes flatPlaces) := by
  have hcount := h.unitCount_eq (by rw [hunits, length_attach, length_laidOut])
  refine List.ext_getElem? fun k => ?_
  rcases Nat.lt_or_ge k (unitCount flat.schemes) with hk | hk
  · obtain ⟨other, d, i, hmem, hi, rfl⟩ := exists_eq_offset_add h.names hk
    rcases h.cases houter hmem with ⟨hne, hother⟩ | ⟨part, rfl, hpart⟩
    · exact getElem?_laidOut_other h houter hunits hconnections hseats hne hother hi
    · exact getElem?_laidOut_part h houter hunits hconnections hseats hinner hpart hi
  · rw [List.getElem?_eq_none (by rw [length_laidOut, ← hcount]; exact hk),
      List.getElem?_eq_none (by rw [length_attach, length_laidOut]; exact hk)]

end Laid

end Units

/-! ### Compiling both assemblies -/

section Both

variable {inner outer flat : Assembly} {c : Circuit} {name : String} {place : Point}
  {rename : String → String}

/-- All circuits have places in both assemblies or in neither. -/
theorem Flattens.placed_iff (h : Flattens inner c name place rename outer flat)
    (houter : outer.Sound) (hcount : c.units.length = unitCount inner.schemes)
    (hinner : ∃ places, inner.positioner.arrange (Keyed.names inner.schemes) = .ok places) :
    (∃ places, outer.positioner.arrange (Keyed.names outer.schemes) = .ok places) ↔
      ∃ places, flat.positioner.arrange (Keyed.names flat.schemes) = .ok places := by
  obtain ⟨p, q, r, hp, hq, hr, hnested, hothers, hparts⟩ := h.poses
  rw [hp, exists_arrange_manual_iff] at hinner
  rw [hq, hr, exists_arrange_manual_iff, exists_arrange_manual_iff]
  constructor
  · intro houters n hn
    obtain ⟨⟨_, d⟩, hmem, rfl⟩ := List.mem_map.1 hn
    rcases h.cases houter hmem with ⟨hne, hother⟩ | ⟨part, rfl, hpart⟩
    · have hother := List.mem_map_of_mem (f := Prod.fst) hother
      rw [hothers _ hother hne]
      exact houters _ hother
    · have hpart := List.mem_map_of_mem (f := Prod.fst) hpart
      obtain ⟨own, turn, hfound⟩ := hinner _ hpart
      exact ⟨place + own - c.corner, turn, by rw [hparts _ hpart, hfound]; rfl⟩
  · intro hflats n hn
    by_cases hne : n = name
    · exact ⟨place, .identity, hne ▸ hnested⟩
    · obtain ⟨⟨_, d⟩, hmem, rfl⟩ := List.mem_map.1 hn
      rw [← hothers _ hn hne]
      exact hflats _ (List.mem_map_of_mem (h.other houter hcount hne hmem).1)

/-- All circuits can be moved in the outer assembly if they can in the flat one, and so can the
compiled circuit. -/
theorem Flattens.movable_iff (h : Flattens inner c name place rename outer flat)
    (houter : outer.Sound) (hcount : c.units.length = unitCount inner.schemes)
    (hinner : ∀ s ∈ inner.schemes, s.2.Movable) :
    (∀ s ∈ outer.schemes, s.2.Movable) ↔ c.Movable ∧ ∀ s ∈ flat.schemes, s.2.Movable := by
  have hc := h.mem
  constructor
  · refine fun houters => ⟨houters _ hc, fun s hs => ?_⟩
    rcases h.cases houter hs with ⟨_, hother⟩ | ⟨part, _, hpart⟩
    · exact houters _ hother
    · exact hinner (part, s.2) hpart
  · rintro ⟨hmovable, hflats⟩ ⟨n, d⟩ hs
    by_cases hne : n = name
    · subst hne
      obtain rfl := (Prod.mk.inj (List.inj_on_of_nodup_map houter.names hs hc rfl)).2
      exact hmovable
    · exact hflats _ (h.other houter hcount hne hs).1

/-- **Both assemblies draw the same units.** -/
theorem draws_flat_iff (h : Flattens inner c name place rename outer flat)
    (hinner : inner.Sound) (houter : outer.Sound) (hpass : inner.Forwarding)
    {places : Keyed (Point × Turn)} {connections : List (List (Int × Int))}
    {ins outs : List Slot × Keyed (List Unresolved)} {d : Diagnostics}
    (hlinking : Linking inner places connections ins outs c d)
    (hresolves : ∀ link ∈ inner.links, Resolves inner.schemes link)
    (hresolves' : ∀ link ∈ outer.links, Resolves outer.schemes link) {units : List Element} :
    outer.Draws units ↔ c.Movable ∧ outer.PlansFit ∧ flat.Draws units := by
  have hcount := hlinking.length_units
  have hplaced := h.placed_iff houter hcount ⟨places, hlinking.arranged⟩
  have hmovable := h.movable_iff houter hcount (movable_of_layOut hlinking.laid)
  have hlinks := mapM_linkConnections_flat h houter hinner hpass hlinking hresolves hresolves'
  have hdrawn {outerPlaces flatPlaces : Keyed (Point × Turn)}
      (houterPlaces : outer.positioner.arrange (Keyed.names outer.schemes) = .ok outerPlaces)
      (hflatPlaces : flat.positioner.arrange (Keyed.names flat.schemes) = .ok flatPlaces)
      (later : List (List (Int × Int))) :
      attach later.flatten (laidOut outer.schemes outerPlaces)
        = attach (connections.map (connectionsBehind (offset outer.schemes name)) ++ later).flatten
            (laidOut flat.schemes flatPlaces) := by
    have hrange := inRange_of_mem_flatten (inRange_scope hinner .output)
      (inRange_scope hinner .input) hlinking.drawn
    rw [laidOut_flat h houter (Circuit.build_eq_ok hlinking.built).1 hrange
      (h.seats houter hlinking.arranged houterPlaces hflatPlaces hcount) hinner, ← attach_append,
      List.flatten_append, connectionsBehind, List.map_flatten]
  constructor
  · rintro ⟨hready, outerPlaces, later, houterPlaces, hlater, rfl⟩
    obtain ⟨hmoves, hmoves'⟩ := hmovable.1 hready.movable
    obtain ⟨flatPlaces, hflatPlaces⟩ := hplaced.1 hready.placed
    rw [hlater] at hlinks
    exact ⟨hmoves, hready.plans, ⟨h.consumed.trans hready.accepts, ⟨flatPlaces, hflatPlaces⟩,
      hmoves', plansFit_of_nil h.inputs h.outputs, Loop.mapM_isOk_iff.1 ⟨_, hlinks⟩⟩, flatPlaces, _,
      hflatPlaces, hlinks, hdrawn houterPlaces hflatPlaces later⟩
  · rintro ⟨hmoves, hplans, hready, flatPlaces, drawn, hflatPlaces, hflat, rfl⟩
    obtain ⟨outerPlaces, houterPlaces⟩ := hplaced.2 hready.placed
    rw [hflat] at hlinks
    cases hlater : outer.links.mapM
        (linkConnections (scope outer.schemes .output) (scope outer.schemes .input)) with
    | error fault =>
        rw [hlater] at hlinks
        cases hlinks
    | ok later =>
        rw [hlater] at hlinks
        cases hlinks
        exact ⟨⟨h.consumed.symm.trans hready.accepts, ⟨outerPlaces, houterPlaces⟩,
          hmovable.2 ⟨hmoves, hready.movable⟩, hplans, Loop.mapM_isOk_iff.1 ⟨later, hlater⟩⟩,
          outerPlaces, later, houterPlaces, hlater,
          (hdrawn houterPlaces hflatPlaces later).symm⟩

/-- **Both assemblies are compiled to the same units.**  The inner assembly passes its slots on from
its own circuits and is compiled to `c` with nothing to report.  Then an assembly that has `c` among
its circuits is compiled to some units exactly if `c` can be moved, the plans of that assembly are
made, and the assembly that has the circuits of the inner one instead is compiled to these units.
And if the outer assembly is ready, both are compiled to the same units, or both are refused as the
same units have too many receivers. -/
theorem compile_flattened (hinner : inner.Sound) (houter : outer.Sound) (hpass : inner.Forwarding)
    {d : Diagnostics} {inner' : Assembly} (hcompiled : compile inner = .ok (c, d) inner')
    (hd : d.isEmpty = true) (h : Flattens inner c name place rename outer flat)
    (hresolves : ∀ link ∈ outer.links, Resolves outer.schemes link) :
    (∀ units, outer.CompilesTo units ↔ c.Movable ∧ outer.PlansFit ∧ flat.CompilesTo units)
    ∧ (outer.Ready → (∃ units, outer.CompilesTo units ∧ flat.CompilesTo units)
        ∨ ∃ found, outer.Overflows found ∧ flat.Overflows found) := by
  obtain ⟨_, hlink, _⟩ := compile_eq_ok_iff.1 hcompiled
  obtain ⟨places, connections, ins, outs, hlinking⟩ := (link_eq_ok_iff hinner).1 hlink
  have hflat := h.sound hinner houter
  have hdraws {units : List Element} :
      outer.Draws units ↔ c.Movable ∧ outer.PlansFit ∧ flat.Draws units :=
    draws_flat_iff h hinner houter hpass hlinking (hlinking.resolves hd) hresolves
  have hcompiles (units : List Element) :
      outer.CompilesTo units ↔ c.Movable ∧ outer.PlansFit ∧ flat.CompilesTo units := by
    rw [compilesTo_iff houter, compilesTo_iff hflat, hdraws, h.config]
    simp only [and_assoc]
  refine ⟨hcompiles, fun hready => ?_⟩
  obtain ⟨units, hunits⟩ := hready.exists_draws
  by_cases hcheck : outer.config.checkOverflow = true →
      overflowing outer.config.maxConnections units = []
  · have houterUnits := hunits.compilesTo houter hcheck
    exact .inl ⟨units, houterUnits, ((hcompiles units).1 houterUnits).2.2⟩
  · obtain ⟨hon, hfound⟩ := Classical.not_imp.1 hcheck
    refine .inr ⟨_, hunits.overflows houter hon hfound, ?_⟩
    have hflatUnits := (hdraws.1 hunits).2.2
    rw [← h.config] at hon hfound ⊢
    exact hflatUnits.overflows hflat hon hfound

end Both

/-! ### A wide assembly -/

/-- A single gate. -/
def gate (mode : GateMode) : Fragment := .device (.ofPart (.gate mode))

/-- Two gates in a row, the second one turned and `x` cells away, that are reached from outside. -/
def spread (x : Int) : Assembly :=
  run [.add "a" (gate .and), .placeLast .origin, .add "b" (gate .or), .placeLast ⟨x, 0, 0⟩,
    .rotateLast .quarterZ, .connect "a" "b" .straight, .forward .input "_" "a/_" none,
    .forward .output "_" "b/_" none] (empty (.manual .empty) .standard)

/-- What these gates are compiled to. -/
def spreadCircuit (x : Int) : Circuit where
  units := [⟨⟨.gate .and, [1], none, false⟩, .origin, .identity⟩,
    ⟨⟨.gate .or, [], none, false⟩, ⟨x, 0, 0⟩, .quarterZ⟩]
  inputs := [.point defaultSlot defaultKind 0]
  outputs := [.point defaultSlot defaultKind 1]
  bounds := ⟨x + 1, 1, 1⟩

/-- A third gate, connected with the compiled gates both ways. -/
def spreadInside (x : Int) : Assembly :=
  run [.add "start" (gate .xor), .placeLast ⟨0, 3, 0⟩, .add "inner" (.circuit (spreadCircuit x)),
    .placeLast ⟨0, 1, 0⟩, .connect "start" "inner" .straight, .connect "inner" "start" .straight]
    (empty (.manual .empty) .standard)

/-- All three gates in one assembly. -/
def spreadFlat (x : Int) : Assembly :=
  run [.add "start" (gate .xor), .placeLast ⟨0, 3, 0⟩, .add "inner.a" (gate .and),
    .placeLast ⟨0, 1, 0⟩, .add "inner.b" (gate .or), .placeLast ⟨x, 1, 0⟩, .rotateLast .quarterZ,
    .connect "inner.a" "inner.b" .straight, .connect "start" "inner.a/_" .straight,
    .connect "inner.b/_" "start" .straight] (empty (.manual .empty) .standard)

theorem corner_spreadCircuit {x : Int} (hx : 0 ≤ x) : (spreadCircuit x).corner = .origin := by
  have hbox : Circuit.boundingBox (spreadCircuit x).units
      = .ok (Point.origin.meet ⟨x, 0, 0⟩,
          (Point.origin.join ⟨x, 0, 0⟩) - (Point.origin.meet ⟨x, 0, 0⟩) + .one) := by
    simp only [spreadCircuit, Circuit.boundingBox, List.foldlM_cons, List.foldlM_nil]
    rw [Element.corners_of_size_one rfl, Element.corners_of_size_one rfl]
    rfl
  rw [Circuit.corner_eq hbox]
  simp [Point.meet, Point.origin, hx]

theorem flattens_spread {x : Int} (hx : 0 ≤ x) :
    Flattens (spread x) (spreadCircuit x) "inner" ⟨0, 1, 0⟩ (fun part => "inner." ++ part)
      (spreadInside x) (spreadFlat x) where
  schemes := ⟨_, [], rfl, rfl⟩
  names := by
    show ["start", "inner.a", "inner.b"].Nodup
    decide
  poses := by
    refine ⟨_, _, _, rfl, rfl, rfl, rfl, fun other hother hne => ?_, fun part hpart => ?_⟩
    · obtain rfl | rfl : other = "start" ∨ other = "inner" := by
        simpa using (show other ∈ ["start", "inner"] from hother)
      · rfl
      · exact absurd rfl hne
    · rw [corner_spreadCircuit hx]
      obtain rfl | rfl : part = "a" ∨ part = "b" := by
        simpa using (show part ∈ ["a", "b"] from hpart)
      · rfl
      · show some (⟨some ⟨x, 1, 0⟩, .quarterZ⟩ : Pose)
          = some ⟨some (⟨0, 1, 0⟩ + ⟨x, 0, 0⟩ - .origin), .quarterZ⟩
        simp [Point.add_def, Point.sub_def, Point.origin]
  links := by
    refine ⟨[⟨"inner.a", "inner.b", .straight⟩], _, rfl, ?_, ?_⟩
    · exact .cons ⟨rfl, rfl, rfl⟩ .nil
    · exact .cons ⟨rfl, rfl, rfl⟩ (.cons ⟨rfl, rfl, rfl⟩ .nil)
  inputs := rfl
  outputs := rfl
  config := rfl
  consumed := rfl

theorem slotsInRange_spreadCircuit (x : Int) : (spreadCircuit x).SlotsInRange := by
  intro side s hs
  rw [← Slot.dangling?_eq_none_iff_inRange]
  show Circuit.dangling? s 2 = none
  cases side <;> (obtain rfl := List.mem_singleton.1 hs; decide)

theorem sound_spread (x : Int) : (spread x).Sound :=
  sound_run (sound_iff_holds.2 (holds_empty _ _)) <| by
    simp [Call.fragments, gate, Fragment.Sound]

theorem sound_spreadInside (x : Int) : (spreadInside x).Sound :=
  sound_run (sound_iff_holds.2 (holds_empty _ _)) <| by
    simp [Call.fragments, gate, Fragment.Sound, slotsInRange_spreadCircuit]

theorem forwarding_spread (x : Int) : (spread x).Forwarding :=
  forwarding_run (forwarding_empty _ _) <| by simp [Call.PassesOn]

theorem resolves_spreadInside (x : Int) :
    ∀ link ∈ (spreadInside x).links, Resolves (spreadInside x).schemes link := by
  intro link hlink
  have hmem : link ∈ [(⟨"start", "inner", .straight⟩ : Link), ⟨"inner", "start", .straight⟩] :=
    hlink
  simp only [List.mem_cons, List.not_mem_nil, or_false] at hmem
  rcases hmem with rfl | rfl
  · exact ⟨_, _, rfl, rfl⟩
  · exact ⟨_, _, rfl, rfl⟩

/-- The gates two cells apart: both ways they stand at the same places and send to each other. -/
theorem compile_flattened_spread :
    (spread 2).Forwarding
    ∧ Flattens (spread 2) (spreadCircuit 2) "inner" ⟨0, 1, 0⟩ (fun part => "inner." ++ part)
        (spreadInside 2) (spreadFlat 2)
    ∧ (spreadInside 2).Ready
    ∧ ∃ units, (spreadInside 2).CompilesTo units ∧ (spreadFlat 2).CompilesTo units
        ∧ units.map (fun e => (e.pos, e.wires))
          = [(⟨0, 3, 0⟩, [1]), (⟨0, 1, 0⟩, [2]), (⟨2, 1, 0⟩, [0])] := by
  have hcompiled : compile (spread 2)
      = .ok (spreadCircuit 2, .none) { spread 2 with consumed := true } := rfl
  have hflattens := flattens_spread (x := 2) (by decide)
  obtain ⟨hcompiles, _⟩ := compile_flattened (sound_spread 2) (sound_spreadInside 2)
    (forwarding_spread 2) hcompiled rfl hflattens (resolves_spreadInside 2)
  obtain ⟨units, hunits, hplaces⟩ : ∃ units, (spreadInside 2).CompilesTo units
      ∧ units.map (fun e => (e.pos, e.wires))
        = [(⟨0, 3, 0⟩, [1]), (⟨0, 1, 0⟩, [2]), (⟨2, 1, 0⟩, [0])] :=
    ⟨_, ⟨_, _, _, rfl, rfl⟩, rfl⟩
  exact ⟨forwarding_spread 2, hflattens, ((compilesTo_iff (sound_spreadInside 2)).1 hunits).1.1,
    units, hunits, ((hcompiles units).1 hunits).2.2, hplaces⟩

/-- The gates so far apart that the circuit that they are compiled to cannot be moved, although each
of them can. -/
theorem not_compilesTo_spread_far :
    (spread 9223372036854775808).Sound ∧ (spreadInside 9223372036854775808).Sound
    ∧ (spread 9223372036854775808).Forwarding
    ∧ compile (spread 9223372036854775808) = .ok (spreadCircuit 9223372036854775808, .none)
        { spread 9223372036854775808 with consumed := true }
    ∧ Flattens (spread 9223372036854775808) (spreadCircuit 9223372036854775808) "inner" ⟨0, 1, 0⟩
        (fun part => "inner." ++ part) (spreadInside 9223372036854775808)
        (spreadFlat 9223372036854775808)
    ∧ (∀ link ∈ (spreadInside 9223372036854775808).links,
        Resolves (spreadInside 9223372036854775808).schemes link)
    ∧ (∃ units, (spreadFlat 9223372036854775808).CompilesTo units)
    ∧ ∃ a', compile (spreadInside 9223372036854775808) = .error .outOfRange a' :=
  ⟨sound_spread _, sound_spreadInside _, forwarding_spread _, rfl, flattens_spread (by decide),
    resolves_spreadInside _, ⟨_, _, _, _, rfl, rfl⟩, _, rfl⟩

end Assembly

end Breadboard
