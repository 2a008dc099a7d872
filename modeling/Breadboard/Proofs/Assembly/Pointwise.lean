import Breadboard.Proofs.Assembly.Sectors

/-!
**Planned slots point by point.**

What stands behind a point of a planned slot can be read off the plan: the entries are gone through
in their order, and for each of them the pairs that its wiring proposes.  On the input side the
wiring runs from the box of the entry to the target's sector, on the output side from the sector to
the box; so the point of the new slot is the start of a pair on the one side, and its end on the
other.  A pair counts if both of its points lie in their boxes, and in their slots as well once they
are moved by the corners of the boxes.

Main definitions:

* `Side.ends` — the point of a pair in the new slot, and the one in the target's slot;
* `PlanEntry.proposed` — the pairs that the wiring of an entry proposes;
* `PlanEntry.Counts` — a pair counts;
* `PlanEntry.unitsBehind` — what an entry puts behind a point.

Main results:

* `SlotPlan.entryPairs_eq` — the pairs of an entry, on both sides alike;
* `SlotPlan.make_pointwise` — **what a plan makes, point by point**.
-/

set_option autoImplicit false
set_option relaxedAutoImplicit false

namespace Breadboard

/-- The point of a pair in the new slot, and the one in the target's slot. -/
def Side.ends : Side → Pair → Point × Point
  | .input, pair => (pair.1, pair.2)
  | .output, pair => (pair.2, pair.1)

namespace PlanEntry

/-- The pairs that the wiring of an entry proposes: the new slot feeds the target on the input side,
and the target feeds the new slot on the output side. -/
def proposed (entry : PlanEntry) (side : Side) (target : Target) : Except Fault (List Pair) :=
  match side with
  | .input => entry.wiring.pairs entry.size target.sector.size
  | .output => entry.wiring.pairs target.sector.size entry.size

/-- A point of the entry's box and a point of the target's sector count, for a new slot of the given
size. -/
structure Counts (entry : PlanEntry) (bounds : Point) (target : Target) (own far : Point) :
    Prop where
  own_inBox : own.isInside entry.size = true
  own_inSlot : (own + entry.corner).isInside bounds = true
  far_inBox : far.isInside target.sector.size = true
  far_inSlot : (far + target.sector.pos).isInside target.slot.size = true

theorem counts_iff {entry : PlanEntry} {bounds : Point} {target : Target} {own far : Point} :
    entry.Counts bounds target own far ↔
      (own.isInside entry.size = true ∧ (own + entry.corner).isInside bounds = true) ∧
      (far.isInside target.sector.size = true
        ∧ (far + target.sector.pos).isInside target.slot.size = true) :=
  ⟨fun h => ⟨⟨h.own_inBox, h.own_inSlot⟩, h.far_inBox, h.far_inSlot⟩,
    fun h => ⟨h.1.1, h.1.2, h.2.1, h.2.2⟩⟩

instance (entry : PlanEntry) (bounds : Point) (target : Target) (own far : Point) :
    Decidable (entry.Counts bounds target own far) := decidable_of_iff _ counts_iff.symm

/-- The units that two points put behind a point of the new slot: those behind the target's point,
if the two count and the own point stands for the point. -/
def unitsBy (entry : PlanEntry) (bounds : Point) (target : Target) (p : Point)
    (ends : Point × Point) : List Int :=
  if entry.Counts bounds target ends.1 ends.2 ∧ ends.1 + entry.corner = p then
    target.unitsAt (ends.2 + target.sector.pos)
  else []

/-- The units that an entry puts behind a point of the new slot; none if its path leads nowhere. -/
def unitsBehind (scope : Scope) (side : Side) (bounds p : Point) (entry : PlanEntry) : List Int :=
  match scope.resolve entry.path with
  | .error _ => []
  | .ok target =>
      match entry.proposed side target with
      | .error _ => []
      | .ok proposed => proposed.flatMap fun pair => entry.unitsBy bounds target p (side.ends pair)

/-- Two points as points of the two slots, if they count. -/
def lift? (entry : PlanEntry) (bounds : Point) (target : Target) (ends : Point × Point) :
    Option Pair :=
  if entry.Counts bounds target ends.1 ends.2 then
    some (ends.1 + entry.corner, ends.2 + target.sector.pos)
  else none

/-- Two points count if the frames of both boxes lift them. -/
theorem lift?_eq (entry : PlanEntry) (bounds : Point) (target : Target) (ends : Point × Point) :
    entry.lift? bounds target ends
      = ((Frame.mk entry.corner entry.size bounds).lift? ends.1).bind fun own =>
          (target.frame.lift? ends.2).map fun far => (own, far) := by
  obtain ⟨own, far⟩ := ends
  simp only [lift?, counts_iff, Frame.lift?, Target.frame, Bool.and_eq_true]
  by_cases hown : own.isInside entry.size = true ∧ (own + entry.corner).isInside bounds = true
  · by_cases hfar : far.isInside target.sector.size = true
        ∧ (far + target.sector.pos).isInside target.slot.size = true
    · rw [if_pos ⟨hown, hfar⟩, if_pos hown, if_pos hfar]
      rfl
    · rw [if_neg fun h => hfar h.2, if_pos hown, if_neg hfar]
      rfl
  · rw [if_neg fun h => hown h.1, if_neg hown]
    rfl

/-- What is put behind a point is what stands behind the lifted points of the target. -/
theorem flatMap_unitsBy (entry : PlanEntry) (bounds : Point) (target : Target) (p : Point)
    (ends : List (Point × Point)) :
    ends.flatMap (entry.unitsBy bounds target p)
      = ((ends.filterMap (entry.lift? bounds target)).filter
          fun pair => decide (pair.1 = p)).flatMap fun pair => target.unitsAt pair.2 := by
  induction ends with
  | nil => rfl
  | cons pair rest ih =>
      rw [List.flatMap_cons, ih, unitsBy, List.filterMap_cons, lift?]
      by_cases hcounts : entry.Counts bounds target pair.1 pair.2
      · by_cases hp : pair.1 + entry.corner = p <;> simp [hcounts, hp]
      · simp [hcounts]

end PlanEntry

namespace SlotPlan

/-- **The pairs of an entry are the proposed ones that count**, on both sides alike. -/
theorem entryPairs_eq (plan : SlotPlan) (side : Side) (entry : PlanEntry) (target : Target) :
    plan.entryPairs side entry target = (do
      pure (((← entry.proposed side target).map side.ends).filterMap
        (entry.lift? plan.bounds target))) := by
  have hlift (proposed : List Pair) :
      (match side with
        | .input => Frame.liftPairs ⟨entry.corner, entry.size, plan.bounds⟩ target.frame proposed
        | .output => (Frame.liftPairs target.frame ⟨entry.corner, entry.size, plan.bounds⟩
            proposed).map Prod.swap)
        = (proposed.map side.ends).filterMap (entry.lift? plan.bounds target) := by
    rw [List.filterMap_map]
    cases side with
    | input =>
        refine List.filterMap_congr fun pair _ => ?_
        rw [Function.comp_apply, PlanEntry.lift?_eq]
        simp only [Side.ends]
        cases Frame.lift? ⟨entry.corner, entry.size, plan.bounds⟩ pair.1 with
        | none => rfl
        | some own => cases target.frame.lift? pair.2 <;> rfl
    | output =>
        -- here the target's point is lifted first, and the lifted points are exchanged
        simp only [Frame.liftPairs, List.map_filterMap]
        refine List.filterMap_congr fun pair _ => ?_
        rw [Function.comp_apply, PlanEntry.lift?_eq]
        simp only [Side.ends]
        cases target.frame.lift? pair.1 <;>
          cases Frame.lift? ⟨entry.corner, entry.size, plan.bounds⟩ pair.2 <;> rfl
  cases side <;> simp only [entryPairs, PlanEntry.proposed, ← hlift]

section Entries

variable {plan : SlotPlan} {scope : Scope} {side : Side} {entry : PlanEntry}

/-- What an entry puts behind points, sorted by the points. -/
theorem units_entryCells {items : List (Point × List Int)}
    (h : plan.entryCells scope side entry = .ok items) (p : Point) :
    (items.filter fun item => decide (item.1 = p)).flatMap Prod.snd
      = entry.unitsBehind scope side plan.bounds p := by
  unfold entryCells at h
  unfold PlanEntry.unitsBehind
  cases hresolve : scope.resolve entry.path with
  | error missing =>
      rw [hresolve] at h
      cases h
      rfl
  | ok target =>
      rw [hresolve] at h
      simp only [entryPairs_eq] at h ⊢
      cases hproposed : entry.proposed side target with
      | error fault =>
          rw [hproposed] at h
          cases h
      | ok proposed =>
          rw [hproposed] at h
          cases h
          have hunits :=
            PlanEntry.flatMap_unitsBy entry plan.bounds target p (proposed.map side.ends)
          rw [List.flatMap_map] at hunits
          dsimp only
          rw [hunits, List.filter_map, List.flatMap_map]
          rfl

/-- An entry is followed unless its path leads somewhere and its wiring fails. -/
theorem entryCells_isOk_iff : (∃ items, plan.entryCells scope side entry = .ok items) ↔
    ∀ target, scope.resolve entry.path = .ok target →
      ∃ proposed, entry.proposed side target = .ok proposed := by
  unfold entryCells
  cases hresolve : scope.resolve entry.path with
  | error missing => simp
  | ok target =>
      simp only [entryPairs_eq, Except.ok.injEq, forall_eq']
      cases entry.proposed side target with
      | error fault => simp [bind, Except.bind]
      | ok proposed => exact ⟨fun _ => ⟨proposed, rfl⟩, fun _ => ⟨_, rfl⟩⟩

/-- What all entries put behind points, sorted by the points. -/
theorem units_flatten {entries : List PlanEntry} {items : List (List (Point × List Int))}
    (h : List.Forall₂ (fun entry items => plan.entryCells scope side entry = .ok items)
      entries items) (p : Point) :
    (items.flatten.filter fun item => decide (item.1 = p)).flatMap Prod.snd
      = entries.flatMap (PlanEntry.unitsBehind scope side plan.bounds p) := by
  induction h with
  | nil => rfl
  | cons hfirst _ ih =>
      rw [List.flatten_cons, List.filter_append, List.flatMap_append, ih, units_entryCells hfirst,
        List.flatMap_cons]

end Entries

/-- **What a plan makes, point by point.**  A plan that is drafted by calls is made with all its
conditions checked.  It is made exactly if its box is not refused and every wiring whose path leads
somewhere proposes pairs.  Then the slot has the name, the kind, the size and the sectors of the
plan; behind each point stand the units that the entries put there, one entry after the other; and
every entry whose path leads nowhere is reported. -/
theorem make_pointwise (plan : SlotPlan) (scope : Scope) (side : Side) :
    (plan.Planned → plan.makeChecked scope side = plan.make scope side) ∧
    ((∃ made, plan.make scope side = .ok made) ↔ plan.size.HoldableIfEmpty ∧
      ∀ entry ∈ plan.entries, ∀ target, scope.resolve entry.path = .ok target →
        ∃ proposed, entry.proposed side target = .ok proposed) ∧
    ∀ slot missing, plan.make scope side = .ok (slot, missing) →
      slot.name = plan.name ∧ slot.kind = plan.kind ∧ slot.size = plan.bounds ∧
      slot.sectors = plan.sectors ∧
      (∀ p, p.isInside plan.bounds = true →
        slot.ids.get? p
          = some (plan.entries.flatMap (PlanEntry.unitsBehind scope side plan.bounds p))) ∧
      missing = plan.entries.zipIdx.filterMap fun entry =>
        match scope.resolve entry.1.path with
        | .error missing => some ⟨entry.2, missing⟩
        | .ok _ => none := by
  refine ⟨fun h => makeChecked_eq_of_fit h.sectored.fit scope side, ?_, fun slot missing h => ?_⟩
  · have hfollowed : (∃ items, plan.entries.mapM (plan.entryCells scope side) = .ok items) ↔
        ∀ entry ∈ plan.entries, ∀ target, scope.resolve entry.path = .ok target →
          ∃ proposed, entry.proposed side target = .ok proposed := by
      rw [Loop.mapM_isOk_iff]
      exact forall₂_congr fun entry _ => entryCells_isOk_iff
    rw [← hfollowed]
    constructor
    · rintro ⟨⟨slot, missing⟩, h⟩
      obtain ⟨hsize, items, hitems, _⟩ := make_eq_ok_iff.1 h
      exact ⟨hsize, items, hitems⟩
    · rintro ⟨hsize, items, hitems⟩
      exact ⟨_, make_eq_ok_iff.2 ⟨hsize, items, hitems, rfl, rfl⟩⟩
  · obtain ⟨_, items, hitems, rfl, rfl⟩ := make_eq_ok_iff.1 h
    refine ⟨rfl, rfl, Dense.size_extend _ _, rfl, fun p hp => ?_, ?_⟩
    · rw [filledWith, Dense.get?_extend, Dense.get?_filled _ hp, Option.map_some, List.nil_append,
        units_flatten (Loop.mapM_eq_ok_iff.1 hitems)]
    · rw [List.filterMap_eq_flatMap_toList]
      refine List.flatMap_congr fun entry _ => ?_
      rw [unresolved]
      cases scope.resolve entry.1.path <;> rfl

/-- The outputs of a circuit with three units in front of its own: two points, a sector of one point
behind which the third unit stands, and a sector with both points. -/
def twoOutputs : Scope :=
  [⟨"part", 3, [⟨"out", "bit", .ofFn ⟨⟨2, 1, 1⟩, rfl⟩ fun p => [p.x + 1],
    [("last", ⟨⟨1, 0, 0⟩, .one, "bit"⟩), ("all", ⟨.origin, ⟨2, 1, 1⟩, "bit"⟩)]⟩]⟩]

/-- A plan of two points: the single point goes to both of them, the box of two points sticks out of
the slot by one, and the last path leads nowhere. -/
def overlapping : SlotPlan :=
  Edit.perform (.attach .origin .one "other/out" .straight)
    (Edit.perform (.attach ⟨1, 0, 0⟩ ⟨2, 1, 1⟩ "part/out/all" .straight)
      (Edit.perform (.attachFull "part/out/last" (.dim true false false))
        (.new "row" "bit" ⟨⟨2, 1, 1⟩, rfl⟩)))

theorem make_overlapping :
    overlapping.Planned ∧ overlapping.makeChecked twoOutputs .output
        = overlapping.make twoOutputs .output ∧
    ∃ slot, overlapping.make twoOutputs .output
        = .ok (slot, [⟨2, .noScheme "other/out" "other"⟩]) ∧
      slot.size = ⟨2, 1, 1⟩ ∧ slot.ids.get? .origin = some [5] ∧
      slot.ids.get? ⟨1, 0, 0⟩ = some [5, 4] := by
  have hplanned : overlapping.Planned := .edited _ (.edited _ (.edited _ (.new _ _ _)))
  have hdrafted : overlapping.Drafted :=
    .edited _ .straight (.edited _ .straight (.edited _ (.dim _ _ _) (.new _ _ _)))
  obtain ⟨hchecked, hmade, hpoints⟩ := make_pointwise overlapping twoOutputs .output
  have hfollowed : ∀ entry ∈ overlapping.entries, ∀ target,
      twoOutputs.resolve entry.path = .ok target →
        ∃ proposed, entry.proposed .output target = .ok proposed :=
    fun entry hentry target _ => (hdrafted.proper.wirings entry hentry).exists_pairs _ _
  obtain ⟨⟨slot, missing⟩, hmade⟩ := hmade.2
    ⟨Size.holdableIfEmpty_of_pos (by decide), hfollowed⟩
  obtain ⟨_, _, hsize, _, hids, hmissing⟩ := hpoints slot missing hmade
  refine ⟨hplanned, hchecked hplanned, slot, ?_, hsize, ?_, ?_⟩
  · rw [hmade, hmissing]
    rfl
  · rw [hids .origin (by decide)]
    rfl
  · rw [hids ⟨1, 0, 0⟩ (by decide)]
    rfl

end SlotPlan

end Breadboard
