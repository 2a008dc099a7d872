import Breadboard.Proofs.Assembly.Flattening
import Breadboard.Proofs.Wiring.Numerals
import Breadboard.Proofs.Wiring.RowTargets
import Mathlib.Algebra.GroupWithZero.Nat

/-!
**Linking designs.**

The assembly of a design places every circuit, so nothing can go wrong with the places; if moreover
all paths lead somewhere, the numbers of units stay in words and no unit sends to too many others,
the design is linked, and there is nothing to report.

Main definitions:

* `Assembly.circuits`, `Assembly.places` — the circuits and the places of a design by name;
* `Assembly.Denotes` — the sector that a path stands for;
* `Assembly.Fits` — the conditions on a design.

Main results:

* `Assembly.resolve_eq_ok_iff` — a path is looked up by what it stands for;
* `SlotPlan.all_of_make` — the slots that are made lead to what paths lead to;
* `Assembly.getElem?_linked` — **a unit of a circuit after all links are drawn**;
* `Assembly.Fits.exists_linkFor` — **a design that meets the conditions is linked**.
-/

set_option autoImplicit false
set_option relaxedAutoImplicit false

namespace Breadboard

namespace SlotPlan

variable {plan : SlotPlan} {scope : Scope} {side : Side}

/-- The units of an entry are those that its path leads to. -/
theorem all_of_entryCells {P : Int → Prop} {entry : PlanEntry} {items : List (Point × List Int)}
    (hscope : scope.All P) (h : plan.entryCells scope side entry = .ok items)
    {item : Point × List Int} (hitem : item ∈ items) {i : Int} (hi : i ∈ item.2) : P i := by
  cases ht : scope.resolve entry.path with
  | error missing =>
      simp only [entryCells, ht] at h
      cases h
      cases hitem
  | ok target =>
      simp only [entryCells, ht] at h
      obtain ⟨pairs, _, h⟩ := Fault.bind_eq_ok_iff.1 h
      cases h
      obtain ⟨pair, _, rfl⟩ := List.mem_map.1 hitem
      exact Scope.unitsAt_all hscope ht hi

/-- The slots that are made lead to units with the property. -/
theorem all_of_make {P : Int → Prop} {s : Slot} {missing : List Unresolved} (hscope : scope.All P)
    (h : plan.make scope side = .ok (s, missing)) : s.All P := by
  obtain ⟨_, items, hitems, rfl, _⟩ := make_eq_ok_iff.1 h
  intro p i hi
  rw [Slot.getPoint, filledWith, Dense.get?_extend] at hi
  cases hp : p.isInside plan.size.extents with
  | false =>
      rw [Dense.get?_eq_none (d := Dense.filled plan.size []) hp] at hi
      cases hi
  | true =>
      rw [Dense.get?_filled [] hp] at hi
      obtain ⟨item, hitem, hi⟩ := List.mem_flatMap.1 hi
      obtain ⟨cells, hcells, hitem⟩ := List.mem_flatten.1 (List.mem_of_mem_filter hitem)
      obtain ⟨entry, _, hentry⟩ := Loop.exists_of_mem_mapM hitems hcells
      exact all_of_entryCells hscope hentry hitem hi

end SlotPlan

/-- A circuit of single cells that can be put into any assembly: its slots and its wires lead to its
units, and its cells have numbers that fit a word. -/
structure Circuit.Embeddable (c : Circuit) : Prop where
  slots : c.SlotsInRange
  wires : c.WiresInRange
  cells : ∀ e ∈ c.units, e.part.size = .one
  near : ∀ e ∈ c.units, Reading.isCount (e.pos - c.corner)

namespace Circuit.Embeddable

variable {c : Circuit}

theorem exists_boundingBox (h : c.Embeddable) : ∃ box, boundingBox c.units = .ok box :=
  boundingBox_isOk_iff.2 fun e he => ⟨_, Element.corners_of_size_one (h.cells e he)⟩

/-- Such a circuit can be moved. -/
theorem movable (h : c.Embeddable) : c.Movable where
  box := h.exists_boundingBox
  near e he := by
    obtain ⟨hx, hy, hz⟩ := h.near e he
    simp only [Point.all, Bool.and_eq_true, Word.fits_iff]
    omega

end Circuit.Embeddable

namespace Assembly

/-! ### Circuits and places of a design -/

/-- The circuits of a design by name. -/
def circuits (placed : List Placed) : Keyed Circuit := placed.map fun p => (p.name, p.circuit)

/-- The places of a design by name. -/
def places (placed : List Placed) : Keyed (Point × Turn) :=
  placed.map fun p => (p.name, (p.place, p.turn))

section Placed

variable {placed : List Placed}

theorem names_circuits : Keyed.names (circuits placed) = placed.map Placed.name := by
  rw [Keyed.names, circuits, List.map_map]
  rfl

theorem mem_circuits {p : Placed} (hp : p ∈ placed) : (p.name, p.circuit) ∈ circuits placed :=
  List.mem_map.2 ⟨p, hp, rfl⟩

/-- Every circuit of a design gets its place. -/
theorem arrange_ofPlaced (config : CompileConfig) (links : List Link)
    (inputs outputs : List SlotPlan) (hnames : (placed.map Placed.name).Nodup) :
    (ofPlaced config placed links inputs outputs).positioner.arrange
      (Keyed.names (circuits placed)) = .ok (places placed) := by
  have hfound : ∀ p ∈ placed, Keyed.find? p.name (placed.map fun q =>
      (q.name, (⟨some q.place, q.turn⟩ : Pose))) = some ⟨some p.place, p.turn⟩ := fun p hp =>
    Keyed.find?_map (fun q => (⟨some q.place, q.turn⟩ : Pose)) hnames hp
  have hgaps : (placed.map Placed.name).filterMap (fun name =>
      ((⟨placed.map fun q => (q.name, ⟨some q.place, q.turn⟩), placed.getLast?.map Placed.name⟩ :
        Placements).gap? name).map fun gap => (name, gap)) = [] := by
    rw [List.filterMap_map, List.filterMap_eq_nil_iff]
    intro p hp
    simp only [Function.comp_apply, Placements.gap?, hfound p hp]
    rfl
  rw [names_circuits]
  simp only [ofPlaced, Positioner.arrange, hgaps, List.isEmpty_nil, if_true]
  rw [places, List.map_map]
  refine congrArg Except.ok (List.map_congr_left fun p hp => ?_)
  simp only [Function.comp_apply, Placements.pose, hfound p hp, Option.getD_some]

end Placed

/-! ### Paths of a design -/

/-- The slots of a circuit are found under its name. -/
theorem find?_scope {schemes : Keyed Circuit} (hnames : (Keyed.names schemes).Nodup) {name : String}
    {c : Circuit} (h : (name, c) ∈ schemes) (side : Side) :
    (scope schemes side).find? name = some ⟨name, offset schemes name, c.slots side⟩ := by
  have hfind : ∀ rest : Keyed Circuit, (Keyed.names rest).Nodup → (name, c) ∈ rest →
      List.find? (fun e => e.scheme == name) (rest.map fun s =>
        (⟨s.1, offset schemes s.1, s.2.slots side⟩ : ScopeEntry))
          = some ⟨name, offset schemes name, c.slots side⟩ := by
    intro rest hnodup hmem
    induction rest with
    | nil => cases hmem
    | cons s rest ih =>
        rw [List.map_cons]
        rcases List.mem_cons.1 hmem with rfl | hmem
        · rw [List.find?_cons_of_pos (by simp)]
        · have hne : s.1 ≠ name := ne_of_mem_tail hnodup hmem
          rw [List.find?_cons_of_neg (by simpa using hne)]
          exact ih (List.nodup_cons.1 hnodup).2 hmem
  exact hfind schemes hnames h

/-- A path stands for a sector of a slot of one of the circuits. -/
def Denotes (schemes : Keyed Circuit) (side : Side) (p : Path) (t : Target) : Prop :=
  t.offset = offset schemes p.scheme ∧ ∃ c, (p.scheme, c) ∈ schemes
    ∧ Circuit.findSlot? p.slot (c.slots side) = some t.slot
    ∧ t.slot.getSector? p.sector = some t.sector

/-- **A path is looked up by what it stands for.** -/
theorem resolve_eq_ok_iff {schemes : Keyed Circuit} (hnames : (Keyed.names schemes).Nodup)
    {side : Side} {path : String} {t : Target} :
    (scope schemes side).resolve path = .ok t ↔
      Denotes schemes side (Path.read defaultSlot path) t := by
  constructor
  · intro h
    simp only [Scope.resolve] at h
    split at h
    · cases h
    · rename_i entry hentry
      obtain ⟨⟨name, c⟩, hmem, rfl⟩ := List.mem_map.1 (List.mem_of_find?_eq_some hentry)
      obtain rfl : name = _ := by simpa using List.find?_some hentry
      split at h
      · cases h
      · rename_i slot hslot
        split at h
        · cases h
        · rename_i sector hsector
          cases h
          exact ⟨rfl, c, hmem, hslot, hsector⟩
  · rintro ⟨hoffset, c, hmem, hslot, hsector⟩
    simp only [Scope.resolve, find?_scope hnames hmem, hslot, hsector]
    rw [← hoffset]

/-- A path that names a sector of a row leads to it. -/
theorem leadsTo_scope {schemes : Keyed Circuit} (hnames : (Keyed.names schemes).Nodup)
    {name : String} {c : Circuit} (hmem : (name, c) ∈ schemes) {side : Side} {slot : String}
    {s : Slot} (hslot : Circuit.findSlot? slot (c.slots side) = some s) {n : Nat}
    {f : Nat → List Int} (hrow : s.IsRow n f) {sector kind : String} {q w : Nat}
    (hsector : s.getSector? sector = some ⟨⟨q, 0, 0⟩, ⟨w, 1, 1⟩, kind⟩) (hfit : q + w ≤ n)
    {path : String} (hpath : Path.read defaultSlot path = ⟨name, slot, sector⟩) :
    (scope schemes side).LeadsTo path w fun x =>
      (f (q + x)).map fun i => i + (offset schemes name : Int) := by
  refine ⟨⟨offset schemes name, s, ⟨⟨q, 0, 0⟩, ⟨w, 1, 1⟩, kind⟩⟩, q, ?_, ⟨n, hfit, ?_⟩, ?_⟩
  · simp only [Scope.resolve, hpath, find?_scope hnames hmem, hslot, hsector]
  · rw [Target.frame, hrow.size_eq]
  · intro x hx
    rw [Target.unitsAt, hrow.getPoint_eq (by omega)]

/-- A path that names a row leads to it. -/
theorem leadsTo_slot {schemes : Keyed Circuit} (hnames : (Keyed.names schemes).Nodup)
    {name : String} {c : Circuit} (hmem : (name, c) ∈ schemes) {side : Side} {slot : String}
    {s : Slot} (hslot : Circuit.findSlot? slot (c.slots side) = some s) {n : Nat}
    {f : Nat → List Int} (hrow : s.IsRow n f) {path : String}
    (hpath : Path.read defaultSlot path = ⟨name, slot, ""⟩) :
    (scope schemes side).LeadsTo path n fun x =>
      (f x).map fun i => i + (offset schemes name : Int) := by
  have hlead := leadsTo_scope hnames hmem hslot hrow hrow.getSector?_whole (by omega) hpath
  simp only [Nat.zero_add] at hlead
  exact hlead

/-! ### Numbers of units in a design -/

/-- Before a circuit stand the units of the circuits before it. -/
theorem offset_eq_sum {placed : List Placed} (hnames : (placed.map Placed.name).Nodup) {k : Nat}
    {p : Placed} (hp : placed[k]? = some p) : offset (circuits placed) p.name
      = ((placed.take k).map fun q => q.circuit.units.length).sum := by
  induction placed generalizing k with
  | nil => cases hp
  | cons q rest ih =>
      rw [List.map_cons] at hnames
      obtain ⟨hnew, hrest⟩ := List.nodup_cons.1 hnames
      cases k with
      | zero =>
          cases hp
          exact offset_cons_self _ _ _
      | succ k =>
          rw [List.getElem?_cons_succ] at hp
          have hne : q.name ≠ p.name := by
            intro e
            rw [e] at hnew
            exact hnew (List.mem_map_of_mem (List.mem_of_getElem? hp))
          rw [circuits, List.map_cons, offset_cons_of_ne _ _ hne, ← circuits, ih hrest hp,
            List.take_succ_cons, List.map_cons, List.sum_cons]

theorem unitCount_eq_sum (placed : List Placed) :
    unitCount (circuits placed) = (placed.map fun p => p.circuit.units.length).sum := by
  rw [unitCount, List.length_flatMap, circuits, List.map_map]
  rfl

section Uniform

variable {placed : List Placed} {m : Nat}

/-- Before a circuit stand as many blocks of one size as circuits. -/
theorem offset_eq_mul (hnames : (placed.map Placed.name).Nodup)
    (hlength : ∀ p ∈ placed, p.circuit.units.length = m) {k : Nat} {p : Placed}
    (hp : placed[k]? = some p) : offset (circuits placed) p.name = m * k := by
  have hk : k < placed.length := (List.getElem?_eq_some_iff.1 hp).1
  have hsizes : (placed.take k).map (fun q => q.circuit.units.length)
      = List.replicate k m := by
    refine List.eq_replicate_iff.2 ⟨by rw [List.length_map, List.length_take]; omega, ?_⟩
    intro size hsize
    obtain ⟨q, hq, rfl⟩ := List.mem_map.1 hsize
    exact hlength q (List.mem_of_mem_take hq)
  rw [offset_eq_sum hnames hp, hsizes, List.sum_replicate_nat, Nat.mul_comm]

theorem unitCount_eq_mul (hlength : ∀ p ∈ placed, p.circuit.units.length = m) :
    unitCount (circuits placed) = m * placed.length := by
  rw [unitCount_eq_sum, List.map_congr_left hlength, List.map_const', List.sum_replicate_nat,
    Nat.mul_comm]

end Uniform

/-! ### Linking a design -/

/-- A unit of a circuit after connections are drawn: its place and its wires are those in the
assembly, and behind its wires stand the receivers that it is given. -/
theorem getElem?_linked {schemes : Keyed Circuit} (places : Keyed (Point × Turn))
    (connections : List (Int × Int)) (hnames : (Keyed.names schemes).Nodup) {name : String}
    {c : Circuit} (hmem : (name, c) ∈ schemes) {i : Nat} (hi : i < c.units.length) :
    (attach connections (laidOut schemes places))[offset schemes name + i]?
      = c.units[i]?.map fun e =>
          { Circuit.relocated c.corner (seat places name).1 (seat places name).2
              (offset schemes name) e with
            wires := (e.wires.map fun w => w + (offset schemes name : Int))
              ++ receivers connections ((offset schemes name : Int) + i) } := by
  have hlength : ∀ s ∈ schemes, (seated places (offset schemes s.1) s).length = s.2.units.length :=
    fun s _ => length_seated places _ s
  rw [getElem?_attach, laidOut, getElem?_flatMap_offset hlength hnames hmem hi, seated,
    List.getElem?_map, Option.map_map, Int.natCast_add]
  rfl

/-- Every unit of an assembly is a unit of a circuit. -/
theorem exists_eq_offset_add {schemes : Keyed Circuit} (hnames : (Keyed.names schemes).Nodup)
    {p : Nat} (hp : p < unitCount schemes) :
    ∃ name c i, (name, c) ∈ schemes ∧ i < c.units.length ∧ p = offset schemes name + i := by
  induction schemes generalizing p with
  | nil => exact absurd hp (Nat.not_lt_zero p)
  | cons s rest ih =>
      obtain ⟨n, d⟩ := s
      rw [unitCount_cons] at hp
      rcases Nat.lt_or_ge p d.units.length with hfirst | hlater
      · exact ⟨n, d, p, List.mem_cons_self, hfirst, by rw [offset_cons_self, Nat.zero_add]⟩
      · obtain ⟨name, c, i, hmem, hi, e⟩ :=
          ih (List.nodup_cons.1 hnames).2 (p := p - d.units.length) (by omega)
        refine ⟨name, c, i, List.mem_cons_of_mem _ hmem, hi, ?_⟩
        rw [offset_cons_of_ne d rest (ne_of_mem_tail hnames hmem)]
        omega

/-- No unit has too many receivers. -/
theorem checkFanOut_eq_ok {config : CompileConfig} {outputs inputs : Scope} {units : List Element}
    (h : ∀ e ∈ units, (e.wires.length : Int) ≤ config.maxConnections) :
    checkFanOut config outputs inputs units = .ok () := by
  have hnone : overflowing config.maxConnections units = [] := by
    rw [overflowing, List.filterMap_eq_nil_iff]
    rintro ⟨e, i⟩ hmem
    have hle := h e (List.fst_mem_of_mem_zipIdx hmem)
    exact if_neg (Int.not_lt.2 hle)
  simp only [checkFanOut, hnone, List.isEmpty_nil, Bool.not_true, Bool.and_false,
    Bool.false_eq_true, if_false]

/-- A list of plans is made plan by plan. -/
theorem makeSlots_eq_ok {plans : List SlotPlan} {scope : Scope} {side : Side} {slots : List Slot}
    (h : List.Forall₂ (fun plan s => plan.make scope side = .ok (s, [])) plans slots) :
    makeSlots plans scope side = .ok (slots, []) := by
  have hmade : plans.mapM (fun plan => plan.make scope side)
      = .ok (slots.map fun s => (s, ([] : List Unresolved))) :=
    Loop.mapM_eq_ok_iff.2 (List.forall₂_map_right_iff.2 h)
  have hreports : (slots.map fun s => (s, ([] : List Unresolved))).filter
      (fun m => !m.2.isEmpty) = [] := by
    simp [List.filter_eq_nil_iff]
  refine Fault.bind_eq_ok_iff.2 ⟨_, hmade, ?_⟩
  simp only [hreports, List.map_map, Function.comp_def, List.map_id', List.map_nil]
  rfl

/-- The slots that plans make have the names of the plans. -/
theorem names_of_makeSlots {plans : List SlotPlan} {scope : Scope} {side : Side}
    {made : List Slot × Keyed (List Unresolved)} (h : makeSlots plans scope side = .ok made) :
    made.1.map Slot.name = plans.map SlotPlan.name := by
  obtain ⟨all, hall, heq⟩ := Fault.bind_eq_ok_iff.1 h
  clear h
  cases heq
  have hmade := Loop.mapM_eq_ok_iff.1 hall
  clear hall
  induction hmade with
  | nil => rfl
  | @cons plan m plans all hplan _ ih =>
      obtain ⟨_, _, _, hslot, _⟩ := SlotPlan.make_eq_ok_iff.1 hplan
      rw [List.map_cons, List.map_cons, ih, hslot]
      rfl

/-- The slots that plans make lead to units with the property. -/
theorem all_of_makeSlots {P : Int → Prop} {plans : List SlotPlan} {scope : Scope} {side : Side}
    {made : List Slot × Keyed (List Unresolved)} (hscope : scope.All P)
    (h : makeSlots plans scope side = .ok made) : ∀ s ∈ made.1, s.All P := by
  obtain ⟨all, hall, h⟩ := Fault.bind_eq_ok_iff.1 h
  cases h
  intro s hs
  obtain ⟨m, hm, rfl⟩ := List.mem_map.1 hs
  obtain ⟨plan, _, hplan⟩ := Loop.exists_of_mem_mapM hall hm
  exact SlotPlan.all_of_make hscope hplan

/-- The slots that plans make lead to units that exist. -/
theorem inRange_of_makeSlots {plans : List SlotPlan} {scope : Scope} {side : Side} {n : Nat}
    {made : List Slot × Keyed (List Unresolved)} (hscope : scope.InRange n)
    (h : makeSlots plans scope side = .ok made) : ∀ s ∈ made.1, s.InRange n :=
  all_of_makeSlots (P := fun i => 0 ≤ i ∧ i < n) hscope h

/-- The units of a design after connections are drawn. -/
def linked (placed : List Placed) (connections : List (List (Int × Int))) : List Element :=
  attach connections.flatten (laidOut (circuits placed) (places placed))

/-- No unit of a design has more receivers than its own and those that it is given. -/
theorem length_wires_le {placed : List Placed} {connections : List (List (Int × Int))}
    (limit : Nat) (hnames : (placed.map Placed.name).Nodup)
    (h : ∀ p ∈ placed, ∀ (i : Nat) (e : Element), p.circuit.units[i]? = some e →
      e.wires.length + (receivers connections.flatten
        ((offset (circuits placed) p.name + i : Nat) : Int)).length ≤ limit) :
    ∀ e ∈ linked placed connections, e.wires.length ≤ limit := by
  intro e he
  obtain ⟨j, hj, rfl⟩ := List.getElem_of_mem he
  have hcount := hj
  rw [linked, length_attach, length_laidOut] at hcount
  have hnodup : (Keyed.names (circuits placed)).Nodup := names_circuits.symm ▸ hnames
  obtain ⟨name, c, i, hmem, hi, rfl⟩ := exists_eq_offset_add hnodup hcount
  obtain ⟨p, hp, heq⟩ := List.mem_map.1 hmem
  cases heq
  have hunit := getElem?_linked (places placed) connections.flatten hnodup (mem_circuits hp) hi
  have hbound := h p hp i _ (List.getElem?_eq_getElem hi)
  obtain ⟨_, hlinked⟩ := List.getElem?_eq_some_iff.1
    (hunit.trans (congrArg _ (List.getElem?_eq_getElem hi)))
  rw [show (linked placed connections)[offset (circuits placed) p.name + i] = _ from hlinked,
    List.length_append, List.length_map]
  push_cast at hbound
  exact hbound

/-- The conditions on a design: what its links connect and its plans make is known, as all paths
lead somewhere, and no unit has too many receivers. -/
structure Fits (config : CompileConfig) (placed : List Placed) (links : List Link)
    (inputs outputs : List SlotPlan) (connections : List (List (Int × Int)))
    (ins outs : List Slot) : Prop where
  names : (placed.map Placed.name).Nodup
  embeddable : ∀ p ∈ placed, p.circuit.Embeddable
  drawn : List.Forall₂ (fun link drawn =>
    linkConnections (scope (circuits placed) .output) (scope (circuits placed) .input) link
        = .ok drawn
      ∧ linkReport (scope (circuits placed) .output) (scope (circuits placed) .input) link = [])
    links connections
  fanOut : ∀ e ∈ linked placed connections, (e.wires.length : Int) ≤ config.maxConnections
  inputNames : (inputs.map SlotPlan.name).Nodup
  outputNames : (outputs.map SlotPlan.name).Nodup
  made : List.Forall₂ (fun plan s =>
    plan.make (scope (circuits placed) .input) .input = .ok (s, [])) inputs ins
  shown : List.Forall₂ (fun plan s =>
    plan.make (scope (circuits placed) .output) .output = .ok (s, [])) outputs outs

namespace Fits

variable {config : CompileConfig} {placed : List Placed} {links : List Link}
  {inputs outputs : List SlotPlan} {connections : List (List (Int × Int))} {ins outs : List Slot}

theorem sound (h : Fits config placed links inputs outputs connections ins outs) :
    (ofPlaced config placed links inputs outputs).Sound := by
  refine ⟨?_, ?_⟩
  · show (Keyed.names (circuits placed)).Nodup
    rw [names_circuits]
    exact h.names
  · intro s hs
    obtain ⟨p, hp, rfl⟩ := List.mem_map.1 hs
    exact (h.embeddable p hp).slots

theorem nodup_names (h : Fits config placed links inputs outputs connections ins outs) :
    (Keyed.names (circuits placed)).Nodup := h.sound.names

/-- The parts of the circuits are parts of the design. -/
theorem part_linked (h : Fits config placed links inputs outputs connections ins outs) {p : Placed}
    (hp : p ∈ placed) {i : Nat} (hi : i < p.circuit.units.length) :
    ((linked placed connections)[offset (circuits placed) p.name + i]?).map (fun e => e.part)
      = (p.circuit.units[i]?).map fun e => e.part := by
  rw [linked, getElem?_linked _ _ h.nodup_names (mem_circuits hp) hi, Option.map_map]
  rfl

theorem length_linked : (linked placed connections).length = unitCount (circuits placed) := by
  rw [linked, length_attach, length_laidOut]

/-- A design has a bounding box, as all its cells are single. -/
theorem exists_boundingBox (h : Fits config placed links inputs outputs connections ins outs) :
    ∃ box, Circuit.boundingBox (linked placed connections) = .ok box := by
  refine Circuit.boundingBox_isOk_iff.2 fun e he => ⟨_, Element.corners_of_size_one ?_⟩
  obtain ⟨k, hk, rfl⟩ := List.getElem_of_mem he
  have hcount := hk
  rw [length_linked] at hcount
  obtain ⟨name, c, i, hmem, hi, rfl⟩ := exists_eq_offset_add h.nodup_names hcount
  obtain ⟨p, hp, e⟩ := List.mem_map.1 hmem
  cases e
  have hpart := h.part_linked hp hi
  rw [List.getElem?_eq_getElem hk, List.getElem?_eq_getElem hi, Option.map_some, Option.map_some,
    Option.some.injEq] at hpart
  rw [hpart]
  exact (h.embeddable p hp).cells _ (List.getElem_mem hi)

/-- **A design that meets the conditions is linked**, and there is nothing to report. -/
theorem exists_linkFor (h : Fits config placed links inputs outputs connections ins outs)
    (what : String) :
    ∃ c, (ofPlaced config placed links inputs outputs).linkFor what = .ok (c, [])
      ∧ c.units = linked placed connections ∧ c.inputs = ins ∧ c.outputs = outs := by
  have hscope (side : Side) :
      (scope (circuits placed) side).InRange (linked placed connections).length := by
    rw [length_linked]
    exact inRange_scope h.sound side
  have hmade := makeSlots_eq_ok h.made
  have hshown := makeSlots_eq_ok h.shown
  obtain ⟨bounds, hbuilt⟩ := Circuit.exists_build
    (names_of_makeSlots hmade ▸ h.inputNames) (names_of_makeSlots hshown ▸ h.outputNames)
    (inRange_of_makeSlots (hscope .input) hmade) (inRange_of_makeSlots (hscope .output) hshown)
    h.exists_boundingBox
  have hreports : links.flatMap
      (linkReport (scope (circuits placed) .output) (scope (circuits placed) .input)) = [] := by
    refine List.flatMap_eq_nil_iff.2 fun link hlink => ?_
    obtain ⟨k, hk, rfl⟩ := List.getElem_of_mem hlink
    exact ((List.forall₂_iff_get.1 h.drawn).2 k hk (by rw [← h.drawn.length_eq]; exact hk)).2
  -- every stage of linking is known, so the whole of it is
  have hlinking : Linking (ofPlaced config placed links inputs outputs) (places placed) connections
      (ins, []) (outs, []) ⟨linked placed connections, ins, outs, bounds⟩ Diagnostics.none := {
    arranged := arrange_ofPlaced config links inputs outputs h.names
    laid := layOut_of_movable h.nodup_names fun s hs => by
      obtain ⟨p, hp, rfl⟩ := List.mem_map.1 hs
      exact (h.embeddable p hp).movable
    inputs := hmade
    outputs := hshown
    drawn := Loop.mapM_eq_ok_iff.2 (h.drawn.imp fun _ _ hlink => hlink.1)
    checked := checkFanOut_eq_ok h.fanOut
    built := hbuilt
    reported := congrArg (fun reports => Diagnostics.mk reports [] []) hreports.symm }
  refine ⟨⟨linked placed connections, ins, outs, bounds⟩, ?_, rfl, rfl, rfl⟩
  exact Fault.bind_eq_ok_iff.2 ⟨_, (link_eq_ok_iff h.sound).2 ⟨_, _, _, _, hlinking⟩, rfl⟩

end Fits

end Assembly

end Breadboard
