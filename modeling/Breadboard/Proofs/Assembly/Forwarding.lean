import Breadboard.Proofs.Assembly.Building
import Breadboard.Proofs.Assembly.Designs
import Breadboard.Proofs.Path

/-!
**Slots that are passed on.**

An assembly may pass a slot of one of its circuits on as its own, or a sector of such a slot.  All
that a wiring sees of a sector is its size and the units behind its points, and of these the new
slot has the same as the sector that it was passed from.

Main definitions:

* `Target.reach` — the units behind a point of a sector;
* `Assembly.Forwards` — a plan that passes a slot on;
* `SlotPlan.passed` — the path from which it was passed.

Main results:

* `Assembly.connectionsBetween_eq` — **a wiring sees the size of a sector and what its points
  reach**;
* `Assembly.forwardTarget_eq_ok_iff` — what a call passes on;
* `Assembly.Forwards.shows_of_make` — **the slot that was passed on**;
* `Assembly.Forwarding.exists_of_findSlot?` — every slot of such an assembly was passed on;
* `Assembly.exists_denotes_of_passed` — **a sector of a slot that was passed on**;
* `Assembly.forwarding_run` — assemblies whose slots are all passed on.
-/

set_option autoImplicit false
set_option relaxedAutoImplicit false

namespace Breadboard

/-! ### What the points of a sector reach -/

namespace Target

/-- The units behind a point of the sector; none if the point lies outside the sector or the
slot. -/
def reach (t : Target) (p : Point) : List Int := ((t.frame.lift? p).map t.unitsAt).getD []

theorem reach_of_not_isInside {t : Target} {p : Point} (h : p.isInside t.sector.size = false) :
    t.reach p = [] := by
  simp [reach, Frame.lift?, frame, h]

/-- The points of a sector reach the units behind the points of the slot. -/
theorem reach_of_isInside {t : Target} {p : Point} (h : p.isInside t.sector.size = true) :
    t.reach p = t.unitsAt (p + t.sector.pos) := by
  rw [reach, Frame.lift?, frame, h, Bool.true_and]
  cases hslot : (p + t.sector.pos).isInside t.slot.size with
  | true => rfl
  | false =>
      rw [unitsAt, Slot.getPoint, Dense.get?_eq_none hslot]
      rfl

/-- The points of a slot that is taken as a whole reach the units behind them. -/
theorem reach_of_whole {t : Target} (hpos : t.sector.pos = .origin)
    (hsize : t.sector.size = t.slot.size) (p : Point) : t.reach p = t.unitsAt p := by
  have horigin : p + .origin = p := by simp [Point.add_def, Point.origin]
  rw [reach, Frame.lift?, frame, hpos, hsize, horigin, Bool.and_self]
  cases h : p.isInside t.slot.size with
  | true => rfl
  | false =>
      rw [unitsAt, Slot.getPoint, Dense.get?_eq_none h]
      rfl

/-- A sector of a slot reaches the same as that sector of another one, if the slots are as large and
the same units stand behind their points. -/
theorem reach_congr {t t' : Target} (hsector : t'.sector = t.sector)
    (hsize : t'.slot.size = t.slot.size) (hunits : ∀ p, t'.unitsAt p = t.unitsAt p) (p : Point) :
    t'.reach p = t.reach p := by
  rw [reach, reach, frame, frame, hsector, hsize]
  cases Frame.lift? ⟨t.sector.pos, t.sector.size, t.slot.size⟩ p with
  | none => rfl
  | some q => exact hunits q

end Target

namespace Assembly

/-- **A wiring sees of a sector its size and what its points reach.** -/
theorem connectionsBetween_eq (wiring : Wiring) (source target : Target) :
    connectionsBetween wiring source target = (do
      let proposed ← wiring.pairs source.sector.size target.sector.size
      pure (proposed.flatMap fun pair => (source.reach pair.1).flatMap fun i =>
        (target.reach pair.2).map fun j => (i, j))) := by
  unfold connectionsBetween
  refine bind_congr fun proposed => congrArg pure ?_
  induction proposed with
  | nil => rfl
  | cons pair rest ih =>
      rw [List.flatMap_cons, ← ih, Frame.liftPairs, List.filterMap_cons, Target.reach, Target.reach]
      cases source.frame.lift? pair.1 with
      | none => simp [Frame.liftPairs]
      | some p =>
          cases target.frame.lift? pair.2 with
          | none => simp [Frame.liftPairs]
          | some q => simp [Frame.liftPairs, pairConnections]

/-- Sectors of the same size whose points reach the same are connected alike. -/
theorem connectionsBetween_congr {source source' target target' : Target}
    (hsize : source'.sector.size = source.sector.size)
    (hreach : ∀ p, source'.reach p = source.reach p)
    (hsize' : target'.sector.size = target.sector.size)
    (hreach' : ∀ p, target'.reach p = target.reach p) (wiring : Wiring) :
    connectionsBetween wiring source' target' = connectionsBetween wiring source target := by
  simp only [connectionsBetween_eq, hsize, hsize', hreach, hreach']

end Assembly

/-! ### The path from which a slot is passed -/

/-- A size has the extents that were given for it. -/
theorem Reading.extents_of_asSize {p : Point} {size : Size} (h : asSize p = .ok size) :
    size.extents = p := by
  unfold asSize at h
  split at h
  · cases h
    rfl
  · cases h

/-- A value that was found stands under its name. -/
theorem Keyed.mem_of_find?_eq_some {α : Type} {name : String} {entries : Keyed α} {a : α}
    (h : find? name entries = some a) : (name, a) ∈ entries := by
  obtain ⟨⟨n, b⟩, he, rfl⟩ := Option.map_eq_some_iff.1 h
  obtain rfl : n = name := by simpa using List.find?_some he
  exact List.mem_of_find?_eq_some he

/-- A value is found under its name, if names are different. -/
theorem Keyed.find?_of_mem {α : Type} {entries : Keyed α} (hnames : (names entries).Nodup)
    {name : String} {a : α} (h : (name, a) ∈ entries) : find? name entries = some a := by
  have hfound := find?_map Prod.snd hnames h
  rwa [List.map_id'] at hfound

namespace SlotPlan

/-- The path from which the slot is passed, if it is: that of the first entry. -/
def passed (plan : SlotPlan) : Path :=
  Path.read defaultSlot ((plan.entries.head?.map PlanEntry.path).getD "")

/-- Sectors are declared one after the other. -/
theorem foldlM_addSector_eq_ok {sectors : Keyed Sector} {plan made : SlotPlan}
    (h : sectors.foldlM (fun (plan : SlotPlan) (sub : String × Sector) =>
      plan.addSector sub.1 sub.2.pos sub.2.size sub.2.kind) plan = .ok made) :
    made = { plan with sectors := plan.sectors ++ sectors } := by
  induction sectors generalizing plan with
  | nil => cases h; rw [List.append_nil]
  | cons sub rest ih =>
      rw [List.foldlM_cons] at h
      obtain ⟨next, hnext, h⟩ := Fault.bind_eq_ok_iff.1 h
      obtain ⟨size, hsize, hnext⟩ := Fault.bind_eq_ok_iff.1 hnext
      obtain ⟨_, _, hnext⟩ := Fault.bind_eq_ok_iff.1 hnext
      cases hnext
      rw [ih h, Reading.extents_of_asSize hsize]
      simp

end SlotPlan

namespace Assembly

/-! ### Plans that pass a slot on -/

/-- The plan passes a slot of an added circuit on, or one of its sectors. -/
def Forwards (a : Assembly) (side : Side) (plan : SlotPlan) : Prop :=
  ∃ path kind parts slot sector, a.forwardTarget side path = .ok (parts, slot, sector)
    ∧ forwardPlan plan.name kind parts slot sector = .ok plan

/-- A path stands for one sector only. -/
theorem Denotes.unique {schemes : Keyed Circuit} (hnames : (Keyed.names schemes).Nodup)
    {side : Side} {parts : Path} {t t' : Target} (h : Denotes schemes side parts t)
    (h' : Denotes schemes side parts t') : t = t' := by
  obtain ⟨offset, slot, sector⟩ := t
  obtain ⟨offset', slot', sector'⟩ := t'
  obtain ⟨hoffset, c, hc, hslot, hsector⟩ := h
  obtain ⟨hoffset', c', hc', hslot', hsector'⟩ := h'
  obtain rfl : c = c' :=
    congrArg Prod.snd (List.inj_on_of_nodup_map hnames hc hc' rfl)
  obtain rfl := Option.some.inj (hslot.symm.trans hslot')
  obtain rfl := Option.some.inj (hsector.symm.trans hsector')
  rw [Target.mk.injEq]
  exact ⟨hoffset.trans hoffset'.symm, rfl, rfl⟩

/-- A path leads to what its parts stand for. -/
theorem resolve_of_names {schemes : Keyed Circuit} (hnames : (Keyed.names schemes).Nodup)
    {side : Side} {path : String} {parts : Path} (hpath : Path.Names path parts) {t : Target} :
    (scope schemes side).resolve path = .ok t ↔ Denotes schemes side parts t := by
  rw [resolve_eq_ok_iff hnames, hpath.read_eq]

theorem forwardTarget_eq (a : Assembly) (side : Side) (path : String) :
    a.forwardTarget side path =
      if (Path.cut path).scheme = "" then .error .noScheme
      else if (Path.cut path).slot = "" then .error .noSlot
      else
        match Keyed.find? (Path.cut path).scheme a.schemes with
        | none => .error (.schemeMissing (Path.cut path).scheme)
        | some circuit =>
            match Circuit.findSlot? (Path.cut path).slot (circuit.slots side) with
            | none => .error (.slotMissing (Path.cut path).scheme side (Path.cut path).slot)
            | some slot =>
                match slot.getSector? (Path.cut path).sector with
                | none => .error (.sectorMissing (Path.cut path).slot (Path.cut path).sector)
                | some sector => .ok (Path.cut path, slot, sector) := rfl

/-- **What a call passes on**: the sector that the path names and stands for. -/
theorem forwardTarget_eq_ok_iff {a : Assembly} (hnames : (Keyed.names a.schemes).Nodup)
    {side : Side} {path : String} {parts : Path} {slot : Slot} {sector : Sector} :
    a.forwardTarget side path = .ok (parts, slot, sector) ↔ Path.Names path parts
      ∧ Denotes a.schemes side parts ⟨offset a.schemes parts.scheme, slot, sector⟩ := by
  rw [Path.names_iff_cut, forwardTarget_eq]
  constructor
  · intro h
    split at h
    · cases h
    · rename_i hscheme
      split at h
      · cases h
      · rename_i hslot_ne
        split at h
        · cases h
        · rename_i c hc
          split at h
          · cases h
          · rename_i s hs
            split at h
            · cases h
            · rename_i sub hsub
              cases h
              exact ⟨⟨rfl, hscheme, hslot_ne⟩, rfl, c, Keyed.mem_of_find?_eq_some hc, hs, hsub⟩
  · rintro ⟨⟨rfl, hscheme, hslot_ne⟩, _, c, hc, hslot, hsector⟩
    rw [if_neg hscheme, if_neg hslot_ne]
    simp only [Keyed.find?_of_mem hnames hc, hslot, hsector]

/-- What a plan is that passes a slot on. -/
theorem forwardPlan_eq_ok {name : String} {kind : Option String} {parts : Path} {slot : Slot}
    {sector : Sector} {plan : SlotPlan} (h : forwardPlan name kind parts slot sector = .ok plan) :
    plan.name = name ∧ plan.kind = kind.getD sector.kind ∧ plan.bounds = sector.size
      ∧ plan.entries = [⟨.origin, sector.size, parts.shortText, .straight⟩]
      ∧ plan.sectors = if parts.sector = wholeSector then slot.sectors else [] := by
  obtain ⟨size, hsize, h⟩ := Fault.bind_eq_ok_iff.1 h
  have hextents := Reading.extents_of_asSize hsize
  dsimp only at h
  rw [Path.shortText]
  by_cases hwhole : parts.sector = wholeSector
  · rw [if_pos hwhole] at h
    rw [if_pos hwhole, if_pos hwhole, SlotPlan.foldlM_addSector_eq_ok h, ← hextents]
    exact ⟨rfl, rfl, rfl, rfl, List.nil_append _⟩
  · rw [if_neg hwhole] at h
    cases h
    rw [if_neg hwhole, if_neg hwhole, ← hextents]
    exact ⟨rfl, rfl, rfl, rfl, rfl⟩

/-- A plan that passes a slot on has the path of the sector. -/
theorem passed_of_forwardPlan {name path : String} {kind : Option String} {parts : Path}
    {slot : Slot} {sector : Sector} {p : SlotPlan} (hpath : Path.Names path parts)
    (h : forwardPlan name kind parts slot sector = .ok p) : p.passed = parts := by
  rw [SlotPlan.passed, (forwardPlan_eq_ok h).2.2.2.1]
  exact hpath.names_shortText.read_eq defaultSlot

/-! ### The slot that was passed on -/

/-- A slot shows what a sector reaches: it has the size of the sector, and behind its points stand
the units behind those of the sector. -/
structure Shows (s : Slot) (t : Target) : Prop where
  size : s.size = t.sector.size
  getPoint : ∀ p, s.getPoint p = t.reach p

/-- Of points with lists behind some of them, what stands behind one of the points. -/
theorem flatMap_filter_points {points : List Point} (hnodup : points.Nodup) {p : Point}
    (hp : p ∈ points) (f : Point → Option (List Int)) :
    ((points.filterMap fun q => (f q).map fun ids => (q, ids)).filter
      fun item => decide (item.1 = p)).flatMap Prod.snd = (f p).getD [] := by
  have hone : points.filter (fun q => decide (q = p)) = [p] := by
    rw [List.filter_eq, List.count_eq_one_of_mem hnodup hp]
    rfl
  have hfilter : (points.filterMap fun q => (f q).map fun ids => (q, ids)).filter
        (fun item => decide (item.1 = p))
      = (points.filter fun q => decide (q = p)).filterMap
          fun q => (f q).map fun ids => (q, ids) := by
    rw [List.filter_filterMap, List.filterMap_filter]
    refine List.filterMap_congr fun q _ => ?_
    cases f q <;> by_cases e : q = p <;> simp [e]
  rw [hfilter, hone]
  cases h : f p <;> simp [h]

/-- What an entry puts behind the points of a slot that is as large as the sector. -/
theorem entryCells_whole {plan : SlotPlan} {scope : Scope} (side : Side) {path : String}
    {t : Target} (hpath : scope.resolve path = .ok t) (hbounds : plan.bounds = t.sector.size) :
    plan.entryCells scope side ⟨.origin, t.sector.size, path, .straight⟩
      = .ok (t.sector.size.box.filterMap fun p =>
          ((t.frame.lift? p).map t.unitsAt).map fun ids => (p, ids)) := by
  have hown : ∀ p ∈ t.sector.size.box,
      (⟨.origin, t.sector.size, t.sector.size⟩ : Frame).lift? p = some p := by
    intro p hp
    have hinside := Point.mem_box.1 hp
    have horigin : p + .origin = p := by simp [Point.add_def, Point.origin]
    simp [Frame.lift?, horigin, hinside]
  have hmeet : t.sector.size.meet t.sector.size = t.sector.size := by
    simp [Point.meet]
  cases side with
  | input =>
      simp only [SlotPlan.entryCells, hpath, SlotPlan.entryPairs, hbounds, Wiring.pairs,
        Wiring.straightPairs, hmeet, Fault.ok_bind, pure_bind]
      refine congrArg Except.ok ?_
      rw [Frame.liftPairs, List.filterMap_map, List.map_filterMap]
      refine List.filterMap_congr fun p hp => ?_
      simp only [Function.comp_apply, hown p hp]
      cases t.frame.lift? p <;> rfl
  | output =>
      simp only [SlotPlan.entryCells, hpath, SlotPlan.entryPairs, hbounds, Wiring.pairs,
        Wiring.straightPairs, hmeet, Fault.ok_bind, pure_bind]
      refine congrArg Except.ok ?_
      rw [Frame.liftPairs, List.filterMap_map, List.map_filterMap, List.map_filterMap]
      refine List.filterMap_congr fun p hp => ?_
      simp only [Function.comp_apply, hown p hp]
      cases t.frame.lift? p <;> rfl

/-- **The slot that was passed on** shows what the sector reaches from which it was passed; a slot
that was passed on as a whole has its sectors as well, and nothing is reported. -/
theorem Forwards.shows_of_make {a : Assembly} (ha : (Keyed.names a.schemes).Nodup) {side : Side}
    {plan : SlotPlan} (h : a.Forwards side plan) {s : Slot} {missing : List Unresolved}
    (hmake : plan.make (scope a.schemes side) side = .ok (s, missing)) :
    missing = [] ∧ s.name = plan.name ∧ ∃ t, Denotes a.schemes side plan.passed t ∧ Shows s t
      ∧ s.sectors = if plan.passed.sector = wholeSector then t.slot.sectors else [] := by
  obtain ⟨path, kind, parts, slot, sector, htarget, hplan⟩ := h
  obtain ⟨hpath, hdenotes⟩ := (forwardTarget_eq_ok_iff ha).1 htarget
  obtain ⟨_, _, hbounds, hentries, hsectors⟩ := forwardPlan_eq_ok hplan
  have hpassed := passed_of_forwardPlan hpath hplan
  let t : Target := ⟨offset a.schemes parts.scheme, slot, sector⟩
  have hresolve : (scope a.schemes side).resolve parts.shortText = .ok t :=
    (resolve_of_names ha hpath.names_shortText).2 hdenotes
  have hcells := entryCells_whole side hresolve hbounds
  let items := t.sector.size.box.filterMap fun p =>
    ((t.frame.lift? p).map t.unitsAt).map fun ids => (p, ids)
  have hall : plan.entries.mapM (plan.entryCells (scope a.schemes side) side) = .ok [items] := by
    rw [hentries, List.mapM_cons, hcells]
    rfl
  have hnothing : plan.entries.zipIdx.flatMap
      (SlotPlan.unresolved (scope a.schemes side)) = [] := by
    simp only [hentries, List.zipIdx_cons, List.zipIdx_nil, List.flatMap_cons, List.flatMap_nil,
      SlotPlan.unresolved, hresolve, List.append_nil]
  obtain ⟨_, made, hmade, rfl, rfl⟩ := SlotPlan.make_eq_ok_iff.1 hmake
  obtain rfl : made = [items] := Except.ok.inj (hmade.symm.trans hall)
  refine ⟨hnothing, rfl, t, hpassed ▸ hdenotes, ⟨?_, fun p => ?_⟩, ?_⟩
  · rw [Slot.size, SlotPlan.filledWith, Dense.size_extend]
    exact hbounds
  · have hextents : plan.size.extents = t.sector.size := hbounds
    rw [Slot.getPoint, SlotPlan.filledWith, Dense.get?_extend, List.flatten_singleton]
    cases hp : p.isInside t.sector.size with
    | false =>
        have hout : p.isInside plan.size.extents = false := by rw [hextents, hp]
        rw [Dense.get?_eq_none (d := Dense.filled plan.size []) hout,
          Target.reach_of_not_isInside hp]
        rfl
    | true =>
        have hin : p.isInside plan.size.extents = true := by rw [hextents, hp]
        rw [Dense.get?_filled [] hin]
        exact flatMap_filter_points (Point.nodup_box _) (Point.mem_box.2 hp)
          fun q => (t.frame.lift? q).map t.unitsAt
  · rw [hpassed]
    exact hsectors

/-- **A sector of a slot that was passed on** reaches the same as a sector of the slot from which it
was passed: the same sector, if the slot was passed on as a whole, and else the sector that was
passed on. -/
theorem exists_denotes_of_passed {schemes : Keyed Circuit} {side : Side} {passed : Path}
    {t u : Target} (hu : Denotes schemes side passed u) (hsize : t.slot.size = u.sector.size)
    (hunits : ∀ q, t.unitsAt q = u.reach q)
    (hsectors : t.slot.sectors = if passed.sector = wholeSector then u.slot.sectors else [])
    {sector : String} (hsector : t.slot.getSector? sector = some t.sector) :
    ∃ t', Denotes schemes side { passed with
        sector := if passed.sector = wholeSector then sector else passed.sector } t'
      ∧ t'.sector.size = t.sector.size ∧ ∀ q, t'.reach q = t.reach q := by
  by_cases hwhole : sector = wholeSector
  · have hpassed : (if passed.sector = wholeSector then sector else passed.sector)
        = passed.sector := by
      split
      · rename_i e
        rw [hwhole, e]
      · rfl
    rw [hwhole, Slot.getSector?_wholeSector, Option.some.injEq] at hsector
    rw [hpassed]
    refine ⟨u, hu, ?_, fun q => ?_⟩
    · rw [← hsector]
      exact hsize.symm
    · rw [← hunits]
      exact (Target.reach_of_whole (by rw [← hsector]; rfl) (by rw [← hsector]; rfl) q).symm
  · -- only a slot that was passed on as a whole has sectors, and it has those of the other slot
    have hfound : Keyed.find? sector t.slot.sectors = some t.sector := by
      rw [← hsector, Slot.getSector?, if_neg hwhole]
    have hpassed : passed.sector = wholeSector := by
      by_contra hsub
      rw [hsectors, if_neg hsub] at hfound
      cases hfound
    rw [if_pos hpassed] at hsectors ⊢
    obtain ⟨hoffset, c, hmem, hslot, husector⟩ := hu
    rw [hpassed, Slot.getSector?_wholeSector, Option.some.injEq] at husector
    have hslots : u.slot.size = t.slot.size := by
      rw [hsize, ← husector]
      rfl
    refine ⟨⟨u.offset, u.slot, t.sector⟩, ⟨hoffset, c, hmem, hslot, ?_⟩, rfl,
      Target.reach_congr rfl hslots fun q => ?_⟩
    · rw [hsectors] at hfound
      rw [Slot.getSector?, if_neg hwhole]
      exact hfound
    · rw [hunits, Target.reach_of_whole (by rw [← husector]; rfl) (by rw [← husector]; rfl)]
      rfl

/-! ### Assemblies whose slots are all passed on -/

/-- All planned slots are passed on from slots of added circuits. -/
def Forwarding (a : Assembly) : Prop := ∀ side, ∀ plan ∈ a.plans side, a.Forwards side plan

/-- A slot of the assembly is found under the name of the plan that passed it on. -/
theorem Forwarding.exists_of_findSlot? {a : Assembly} (ha : (Keyed.names a.schemes).Nodup)
    (h : a.Forwarding) {side : Side} {made : List Slot × Keyed (List Unresolved)}
    (hmade : makeSlots (a.plans side) (scope a.schemes side) side = .ok made) {name : String}
    {s : Slot} (hs : Circuit.findSlot? name made.1 = some s) :
    ∃ plan t, (a.plans side).find? (fun plan => plan.name == name) = some plan
      ∧ Denotes a.schemes side plan.passed t ∧ Shows s t
      ∧ s.sectors = if plan.passed.sector = wholeSector then t.slot.sectors else [] := by
  obtain ⟨all, hall, heq⟩ := Fault.bind_eq_ok_iff.1 hmade
  clear hmade
  cases heq
  have hplans := h side
  replace hall := Loop.mapM_eq_ok_iff.1 hall
  revert hplans hs
  generalize a.plans side = plans at hall
  -- plans and slots stand side by side, each slot under the name of its plan
  induction hall with
  | nil =>
      intro hs
      cases hs
  | @cons plan m plans all hmake _ ih =>
      intro hs hplans
      obtain ⟨_, hname, t, hrest⟩ := (hplans plan List.mem_cons_self).shows_of_make ha hmake
      rw [List.find?_cons, ← hname]
      rw [Circuit.findSlot?, List.map_cons, List.find?_cons] at hs
      cases hfirst : m.1.name == name with
      | true =>
          simp only [hfirst] at hs ⊢
          obtain rfl := Option.some.inj hs
          exact ⟨plan, t, rfl, hrest⟩
      | false =>
          simp only [hfirst] at hs ⊢
          exact ih hs fun p hp => hplans p (List.mem_cons_of_mem plan hp)

/-- What was found under a path is found when more circuits are there. -/
theorem forwardTarget_of_append {a b : Assembly} {more : Keyed Circuit}
    (h : b.schemes = a.schemes ++ more) {side : Side} {path : String} {r : Path × Slot × Sector}
    (hfound : a.forwardTarget side path = .ok r) : b.forwardTarget side path = .ok r := by
  have hfind : ∀ name c, Keyed.find? name a.schemes = some c →
      Keyed.find? name b.schemes = some c := by
    intro name c hc
    obtain ⟨e, he, rfl⟩ := Option.map_eq_some_iff.1 hc
    rw [h, Keyed.find?, List.find?_append, he]
    rfl
  unfold forwardTarget at hfound ⊢
  simp only [] at hfound ⊢
  split at hfound
  · cases hfound
  · rename_i hscheme
    split at hfound
    · cases hfound
    · rename_i hslot
      split at hfound
      · cases hfound
      · rename_i c hc
        rw [if_neg hscheme, if_neg hslot, hfind _ c hc]
        exact hfound

theorem Forwards.of_append {a b : Assembly} {more : Keyed Circuit}
    (hschemes : b.schemes = a.schemes ++ more) {side : Side} {plan : SlotPlan}
    (h : a.Forwards side plan) : b.Forwards side plan := by
  obtain ⟨path, kind, parts, slot, sector, htarget, hmade⟩ := h
  exact ⟨path, kind, parts, slot, sector, forwardTarget_of_append hschemes htarget, hmade⟩

theorem Forwarding.of_append {a b : Assembly} (ha : a.Forwarding) {more : Keyed Circuit}
    (hschemes : b.schemes = a.schemes ++ more) (hplans : ∀ side, b.plans side = a.plans side) :
    b.Forwarding :=
  fun side plan hplan => (ha side plan (hplans side ▸ hplan)).of_append hschemes

/-- One more plan that passes a slot on. -/
theorem Forwarding.pushPlan {a : Assembly} (ha : a.Forwarding) {side : Side} {plan : SlotPlan}
    (h : a.Forwards side plan) : (a.pushPlan side plan).Forwarding := by
  have hschemes : (a.pushPlan side plan).schemes = a.schemes ++ [] := by
    rw [List.append_nil]
    cases side <;> rfl
  intro other p hp
  refine Forwards.of_append hschemes ?_
  rw [plans_pushPlan] at hp
  split at hp
  · rename_i hside
    obtain rfl := hside
    rcases List.mem_append.1 hp with hold | hlast
    · exact ha side p hold
    · rw [List.mem_singleton.1 hlast]
      exact h
  · exact ha other p hp

theorem forwarding_empty (positioner : Positioner) (config : CompileConfig) :
    (empty positioner config).Forwarding := by
  intro side plan hplan
  cases side <;> cases hplan

/-- A call that does not plan a slot by hand. -/
def Call.PassesOn : Call → Prop
  | .plan .. => False
  | _ => True

/-- Every call but planning by hand keeps it that all slots are passed on: a slot that is passed on
is planned as such, or the call fails. -/
theorem Call.keeps_forwarding {call : Call} (h : call.PassesOn) :
    Keeps Forwarding call.perform := by
  refine keeps_of_change fun a b ha hchange => ?_
  cases hchange with
  | checked => exact ha.of_append (List.append_nil _).symm fun side => by cases side <;> rfl
  | added => exact ha.of_append rfl fun side => by cases side <;> rfl
  | connected => exact ha.of_append (List.append_nil _).symm fun side => by cases side <;> rfl
  | arranged => exact ha.of_append (List.append_nil _).symm fun side => by cases side <;> rfl
  | planned => exact h.elim
  | forwarded _ hfound hmade =>
      have hname := (forwardPlan_eq_ok hmade).1
      exact ha.pushPlan ⟨_, _, _, _, _, hfound, hname ▸ hmade⟩

/-- **Assemblies whose slots are all passed on**: those that are built without planning a slot by
hand. -/
theorem forwarding_run {calls : List Call} {a : Assembly} (ha : a.Forwarding)
    (h : ∀ call ∈ calls, call.PassesOn) : (run calls a).Forwarding :=
  run_of_keeps ha fun call hcall => Call.keeps_forwarding (h call hcall)

end Assembly

end Breadboard
