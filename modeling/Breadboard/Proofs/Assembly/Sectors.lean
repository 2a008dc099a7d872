import Breadboard.Assembly.Basic
import Breadboard.Proofs.Circuit.BoundingBox
import Breadboard.Proofs.Wiring.Drafting

/-!
**The two ways to declare a sector.**

A sector is declared on a slot, or on the plan of a slot.  Both ask for a new name and for a box
that starts at no negative coordinate and ends within the slot; the plan also reads the extents as
those of a size, so it refuses negative ones, and the slot does not.  A box with a negative extent
ends before it starts, and so it may start outside.  Passing a whole slot on moves its sectors from
the slot to a plan, and fails for a slot with such a sector.

Main definitions:

* `SlotPlan.Planned` — the plans that are drafted, or pass the slot of a circuit on;
* `Slot.Reached` — the slots that are made from plans and by declaring sectors.

Main results:

* `Slot.exists_bindSector_iff`, `SlotPlan.addSector_eq_ok_iff` — what is accepted;
* `SlotPlan.Planned.sectored`, `Slot.Reached.sectored` — where the sectors of plans and slots lie;
* `Assembly.exists_forwardPlan_iff` — which slots can be passed on as a whole;
* `Slot.sectors_contained` — **the two ways agree except on negative extents, and sectors lie within
  their slots**;
* `Slot.negative_sector_accepted` — a sector that only the slot accepts.
-/

set_option autoImplicit false
set_option relaxedAutoImplicit false

namespace Breadboard

namespace Point

/-- The sizes are the points that are not before the origin on any axis. -/
theorem isSize_iff_origin_le {a : Point} : a.isSize = true ↔ origin ≤ a := isSize_iff

/-- A box stays within another if it neither starts too early nor ends too late. -/
theorem boxFits_iff_le {corner size bounds : Point} :
    boxFits corner size bounds = true ↔ origin ≤ corner ∧ corner + size ≤ bounds := by
  rw [boxFits_iff]
  constructor
  · rintro ⟨hx, hy, hz⟩
    exact ⟨⟨hx.1, hy.1, hz.1⟩, hx.2, hy.2, hz.2⟩
  · rintro ⟨hstart, hstop⟩
    exact ⟨⟨hstart.1, hstop.1⟩, ⟨hstart.2.1, hstop.2.1⟩, hstart.2.2, hstop.2.2⟩

end Point

namespace Slot

/-- A slot accepts exactly the sectors that pass the check. -/
theorem exists_bindSector_iff {s : Slot} {name : String} {sector : Sector} :
    (∃ t, s.bindSector name sector = .ok t) ↔
      checkSector s.name s.size s.sectors name sector = .ok () := by
  constructor
  · rintro ⟨t, h⟩
    obtain ⟨⟨⟩, hcheck, _⟩ := Fault.bind_eq_ok_iff.1 h
    exact hcheck
  · intro hcheck
    exact ⟨_, Fault.bind_eq_ok_iff.2 ⟨(), hcheck, rfl⟩⟩

/-- The check does not depend on the slot's name and the sector's kind. -/
theorem checkSector_ok_congr (slotName slotName' kind kind' : String) {name : String}
    {size corner extents : Point} {sectors : Keyed Sector} :
    checkSector slotName size sectors name ⟨corner, extents, kind⟩ = .ok () ↔
      checkSector slotName' size sectors name ⟨corner, extents, kind'⟩ = .ok () := by
  rw [checkSector_eq_ok_iff, checkSector_eq_ok_iff]

end Slot

namespace SlotPlan

/-- A plan accepts exactly the sectors that pass the check and have no negative extent. -/
theorem addSector_eq_ok_iff {plan made : SlotPlan} {name : String} {corner size : Point}
    {kind : Option String} :
    plan.addSector name corner size kind = .ok made ↔
      .origin ≤ size
        ∧ Slot.checkSector plan.name plan.bounds plan.sectors name
            ⟨corner, size, kind.getD plan.kind⟩ = .ok ()
        ∧ made = { plan with
            sectors := plan.sectors ++ [(name, ⟨corner, size, kind.getD plan.kind⟩)] } := by
  rw [← Point.isSize_iff_origin_le, addSector, Reading.asSize]
  by_cases hsize : size.isSize = true
  · rw [dif_pos hsize, Fault.ok_bind, Fault.bind_eq_ok_iff]
    constructor
    · rintro ⟨⟨⟩, hcheck, hmade⟩
      cases hmade
      exact ⟨hsize, hcheck, rfl⟩
    · rintro ⟨_, hcheck, rfl⟩
      exact ⟨(), hcheck, rfl⟩
  · rw [dif_neg hsize, Fault.error_bind]
    simp [hsize]

/-- The sectors of a plan can be declared one after the other, and have no negative extents. -/
structure Sectored (plan : SlotPlan) : Prop where
  fit : Slot.SectorsFit plan.bounds plan.sectors
  extents : ∀ sub ∈ plan.sectors, .origin ≤ sub.2.size

theorem sectored_new (name kind : String) (size : Size) : (new name kind size).Sectored :=
  ⟨Slot.sectorsFit_nil _, by simp [new]⟩

namespace Sectored

variable {plan made : SlotPlan}

/-- An entry changes neither the size nor the sectors. -/
theorem push (h : plan.Sectored) (entry : PlanEntry) : (plan.push entry).Sectored :=
  ⟨h.fit, h.extents⟩

theorem addSector (h : plan.Sectored) {name : String} {corner size : Point} {kind : Option String}
    (hmade : plan.addSector name corner size kind = .ok made) : made.Sectored := by
  obtain ⟨hsize, hcheck, rfl⟩ := addSector_eq_ok_iff.1 hmade
  refine ⟨h.fit.concat hcheck, fun sub hsub => ?_⟩
  rcases List.mem_append.1 hsub with hold | hlast
  · exact h.extents sub hold
  · rw [List.mem_singleton.1 hlast]
    exact hsize

/-- Every call of a draft keeps the sectors as they should be, whether it fails or not. -/
theorem perform (h : plan.Sectored) (edit : Edit) : (edit.perform plan).Sectored := by
  cases edit with
  | attach corner size path wiring =>
      rw [Edit.perform]
      cases hmade : plan.attach corner size path wiring with
      | error fault => exact h
      | ok made =>
          obtain ⟨extents, _, hmade⟩ := Fault.bind_eq_ok_iff.1 hmade
          cases hmade
          exact h.push _
  | attachFull path wiring => exact h.push _
  | attachPoints pathOf =>
      refine List.foldlRecOn plan.bounds.box _ h fun plan h p _ => ?_
      cases pathOf p with
      | none => exact h
      | some path => exact h.push _
  | addSector name corner size kind =>
      rw [Edit.perform]
      cases hmade : plan.addSector name corner size kind with
      | error fault => exact h
      | ok made => exact h.addSector hmade
  | addPointSectors kind nameOf =>
      refine final_forM (fun p plan h => ?_) h plan.bounds.box
      rw [final, Loop.get_bind]
      cases hmade : plan.addSector (nameOf p) p .one (some kind) with
      | error fault => exact h
      | ok made => exact h.addSector hmade

end Sectored

/-- Plans that are drafted by calls, failed ones included, or pass the slot of a circuit on. -/
inductive Planned : SlotPlan → Prop where
  | new (name kind : String) (size : Size) : Planned (.new name kind size)
  | edited {plan : SlotPlan} (edit : Edit) (planned : Planned plan) : Planned (edit.perform plan)
  | forwarded {name : String} {kind : Option String} {parts : Path} {slot : Slot} {sector : Sector}
      {plan : SlotPlan} (passed : Assembly.forwardPlan name kind parts slot sector = .ok plan) :
      Planned plan

/-- The plan of a slot that is passed on declares its sectors like any other plan. -/
theorem sectored_forwardPlan {name : String} {kind : Option String} {parts : Path} {slot : Slot}
    {sector : Sector} {plan : SlotPlan}
    (h : Assembly.forwardPlan name kind parts slot sector = .ok plan) : plan.Sectored := by
  obtain ⟨size, _, h⟩ := Fault.bind_eq_ok_iff.1 h
  have hnew := sectored_new name (kind.getD sector.kind) size
  dsimp only at h
  split at h
  · refine Loop.foldlM_invariant Sectored h (hnew.push _) ?_
    intro sub _ plan next hplan hnext
    exact hplan.addSector hnext
  · cases h
    exact hnew.push _

/-- **The sectors of a plan lie within the slot and have no negative extents.** -/
theorem Planned.sectored {plan : SlotPlan} (h : plan.Planned) : plan.Sectored := by
  induction h with
  | new name kind size => exact sectored_new name kind size
  | edited edit _ ih => exact ih.perform edit
  | forwarded passed => exact sectored_forwardPlan passed

/-- Sectors that fit and have no negative extents are declared one after the other. -/
theorem foldlM_addSector {plan : SlotPlan} {sectors : Keyed Sector}
    (h : Slot.SectorsFit plan.bounds (plan.sectors ++ sectors))
    (hextents : ∀ sub ∈ sectors, .origin ≤ sub.2.size) :
    sectors.foldlM (fun (plan : SlotPlan) (sub : String × Sector) =>
        plan.addSector sub.1 sub.2.pos sub.2.size sub.2.kind) plan
      = .ok { plan with sectors := plan.sectors ++ sectors } := by
  induction sectors generalizing plan with
  | nil => rw [List.append_nil]; rfl
  | cons sub rest ih =>
      obtain ⟨name, sector⟩ := sub
      rw [List.forall_mem_cons] at hextents
      have hdeclared : plan.addSector name sector.pos sector.size (some sector.kind)
          = .ok { plan with sectors := plan.sectors ++ [(name, sector)] } :=
        addSector_eq_ok_iff.2 ⟨hextents.1, h.checkSector_of_append plan.name, rfl⟩
      have hassoc : plan.sectors ++ (name, sector) :: rest
          = plan.sectors ++ [(name, sector)] ++ rest := by simp
      rw [hassoc] at h ⊢
      rw [List.foldlM_cons, hdeclared, Fault.ok_bind]
      exact @ih { plan with sectors := plan.sectors ++ [(name, sector)] } h hextents.2

end SlotPlan

namespace Assembly

/-- **A slot is passed on as a whole if and only if none of its sectors has a negative extent**; its
sectors are then those of the plan. -/
theorem exists_forwardPlan_iff {slot : Slot} (h : Slot.SectorsFit slot.size slot.sectors)
    (name : String) (kind : Option String) (scheme slotName : String) :
    ((∃ plan, forwardPlan name kind ⟨scheme, slotName, wholeSector⟩ slot slot.whole = .ok plan)
      ↔ ∀ sub ∈ slot.sectors, .origin ≤ sub.2.size) ∧
    ∀ plan, forwardPlan name kind ⟨scheme, slotName, wholeSector⟩ slot slot.whole = .ok plan →
      plan.sectors = slot.sectors := by
  let passed := (SlotPlan.new name (kind.getD slot.kind) ⟨slot.size, slot.ids.isSize⟩).attachFull
    (scheme ++ "/" ++ slotName) .straight
  have hpassed : forwardPlan name kind ⟨scheme, slotName, wholeSector⟩ slot slot.whole
      = slot.sectors.foldlM (fun (plan : SlotPlan) (sub : String × Sector) =>
          plan.addSector sub.1 sub.2.pos sub.2.size sub.2.kind) passed := by
    have hsize : Reading.asSize slot.whole.size = .ok ⟨slot.size, slot.ids.isSize⟩ :=
      dif_pos slot.ids.isSize
    rw [forwardPlan, hsize, Fault.ok_bind]
    rfl
  rw [hpassed]
  have hall : (∀ sub ∈ slot.sectors, .origin ≤ sub.2.size) →
      slot.sectors.foldlM (fun (plan : SlotPlan) (sub : String × Sector) =>
          plan.addSector sub.1 sub.2.pos sub.2.size sub.2.kind) passed
        = .ok { passed with sectors := slot.sectors } :=
    @SlotPlan.foldlM_addSector passed slot.sectors h
  have hnone {plan : SlotPlan} (hplan : slot.sectors.foldlM (fun (plan : SlotPlan)
      (sub : String × Sector) => plan.addSector sub.1 sub.2.pos sub.2.size sub.2.kind) passed
        = .ok plan) : ∀ sub ∈ slot.sectors, .origin ≤ sub.2.size := by
    intro sub hsub
    obtain ⟨before, after, hstep⟩ := Loop.exists_step hplan hsub
    exact (SlotPlan.addSector_eq_ok_iff.1 hstep).1
  refine ⟨⟨fun ⟨plan, hplan⟩ => hnone hplan, fun hextents => ⟨_, hall hextents⟩⟩, ?_⟩
  intro plan hplan
  rw [hall (hnone hplan)] at hplan
  cases hplan
  rfl

end Assembly

namespace Slot

/-- Slots that are reached from bare ones by declaring sectors, whose extents are as stated, by
renumbering the units behind the points, and by making plans. -/
inductive Reached (P : Point → Prop) : Slot → Prop where
  | bare (name kind : String) (ids : Dense (List Int)) : Reached P ⟨name, kind, ids, []⟩
  | declared {s t : Slot} {name : String} {sector : Sector} (reached : Reached P s)
      (extents : P sector.size) (accepted : s.bindSector name sector = .ok t) : Reached P t
  | readdressed {s : Slot} (ids : Dense (List Int)) (reached : Reached P s)
      (size : ids.size = s.size) : Reached P { s with ids }
  | made {plan : SlotPlan} {scope : Scope} {side : Side} {s : Slot} {missing : List Unresolved}
      (planned : plan.Planned) (made : plan.make scope side = .ok (s, missing)) : Reached P s

/-- The sectors of a slot can be declared one after the other, and have no negative extents or such
as stated. -/
structure Sectored (P : Point → Prop) (s : Slot) : Prop where
  fit : SectorsFit s.size s.sectors
  extents : ∀ sub ∈ s.sectors, .origin ≤ sub.2.size ∨ P sub.2.size

/-- **The sectors of a slot lie within it; negative extents are only those of sectors that were
declared on the slot.** -/
theorem Reached.sectored {P : Point → Prop} {s : Slot} (h : s.Reached P) : s.Sectored P := by
  induction h with
  | bare name kind ids => exact ⟨sectorsFit_nil _, by simp⟩
  | @declared s t name sector _ hextents haccepted ih =>
      obtain ⟨⟨⟩, hcheck, hmade⟩ := Fault.bind_eq_ok_iff.1 haccepted
      cases hmade
      refine ⟨ih.fit.concat hcheck, fun sub hsub => ?_⟩
      rcases List.mem_append.1 hsub with hold | hlast
      · exact ih.extents sub hold
      · rw [List.mem_singleton.1 hlast]
        exact .inr hextents
  | readdressed ids _ hsize ih => exact ⟨by rw [size, hsize]; exact ih.fit, ih.extents⟩
  | @made plan scope side s missing hplanned hmade =>
      obtain ⟨_, items, _, rfl, _⟩ := SlotPlan.make_eq_ok_iff.1 hmade
      refine ⟨?_, fun sub hsub => .inl (hplanned.sectored.extents sub hsub)⟩
      rw [size, SlotPlan.filledWith, Dense.size_extend]
      exact hplanned.sectored.fit

/-- **The two ways to declare a sector agree except on negative extents, and sectors lie within
their slots.**  For a slot and a plan of the same size with the same sectors, the plan accepts a
sector exactly if the slot does and no extent is negative.  The sectors of every slot that is
reached have different names that are not empty, they start and end within the slot, and an extent
is negative at most in sectors that were declared on a slot; without those the slot is passed on as
a whole, with all its sectors. -/
theorem sectors_contained (s : Slot) :
    (∀ plan : SlotPlan, s.size = plan.bounds → s.sectors = plan.sectors →
      ∀ (name : String) (corner size : Point) (kind : String) (planKind : Option String),
        (∃ made, plan.addSector name corner size planKind = .ok made) ↔
          (∃ t, s.bindSector name ⟨corner, size, kind⟩ = .ok t) ∧ .origin ≤ size) ∧
    ∀ P : Point → Prop, s.Reached P →
      (Keyed.names s.sectors).Nodup ∧ wholeSector ∉ Keyed.names s.sectors ∧
      (∀ sub ∈ s.sectors, .origin ≤ sub.2.pos ∧ sub.2.pos + sub.2.size ≤ s.size
        ∧ (.origin ≤ sub.2.size ∨ P sub.2.size)) ∧
      ∀ (name : String) (kind : Option String) (scheme slotName : String),
        ((∃ plan, Assembly.forwardPlan name kind ⟨scheme, slotName, wholeSector⟩ s s.whole
            = .ok plan) ↔ ∀ sub ∈ s.sectors, .origin ≤ sub.2.size) ∧
        ∀ plan, Assembly.forwardPlan name kind ⟨scheme, slotName, wholeSector⟩ s s.whole
          = .ok plan → plan.sectors = s.sectors := by
  refine ⟨fun plan hsize hsectors name corner size kind planKind => ?_, fun P hs => ?_⟩
  · rw [exists_bindSector_iff, hsize, hsectors,
      checkSector_ok_congr s.name plan.name kind (planKind.getD plan.kind)]
    constructor
    · rintro ⟨made, hmade⟩
      obtain ⟨hextents, hcheck, _⟩ := SlotPlan.addSector_eq_ok_iff.1 hmade
      exact ⟨hcheck, hextents⟩
    · rintro ⟨hcheck, hextents⟩
      exact ⟨_, SlotPlan.addSector_eq_ok_iff.2 ⟨hextents, hcheck, rfl⟩⟩
  · obtain ⟨hfit, hextents⟩ := hs.sectored
    refine ⟨hfit.distinct, hfit.named, fun sub hsub => ?_, Assembly.exists_forwardPlan_iff hfit⟩
    obtain ⟨hstart, hstop⟩ := Point.boxFits_iff_le.1 (hfit.fit sub hsub)
    exact ⟨hstart, hstop, hextents sub hsub⟩

/-- A row of four points. -/
def row : Slot := .empty "row" "bit" ⟨⟨4, 1, 1⟩, rfl⟩

/-- The row with its first half as a sector. -/
def halvedRow : Slot := { row with sectors := [("low", ⟨.origin, ⟨2, 1, 1⟩, "bit"⟩)] }

theorem sectors_contained_halvedRow :
    (row.size = (SlotPlan.new "row" "bit" ⟨⟨4, 1, 1⟩, rfl⟩).bounds ∧
      row.sectors = (SlotPlan.new "row" "bit" ⟨⟨4, 1, 1⟩, rfl⟩).sectors ∧
      ((∃ made, (SlotPlan.new "row" "bit" ⟨⟨4, 1, 1⟩, rfl⟩).addSector "low" .origin ⟨2, 1, 1⟩ none
          = .ok made) ↔
        (∃ t, row.bindSector "low" ⟨.origin, ⟨2, 1, 1⟩, "bit"⟩ = .ok t)
          ∧ .origin ≤ (⟨2, 1, 1⟩ : Point))) ∧
    halvedRow.Reached (.origin ≤ ·) ∧ (Keyed.names halvedRow.sectors).Nodup ∧
    wholeSector ∉ Keyed.names halvedRow.sectors ∧
    (∀ sub ∈ halvedRow.sectors, .origin ≤ sub.2.pos ∧ sub.2.pos + sub.2.size ≤ halvedRow.size
      ∧ (.origin ≤ sub.2.size ∨ .origin ≤ sub.2.size)) ∧
    ∀ (name : String) (kind : Option String) (scheme slotName : String),
      ((∃ plan, Assembly.forwardPlan name kind ⟨scheme, slotName, wholeSector⟩ halvedRow
          halvedRow.whole = .ok plan) ↔ ∀ sub ∈ halvedRow.sectors, .origin ≤ sub.2.size) ∧
      ∀ plan, Assembly.forwardPlan name kind ⟨scheme, slotName, wholeSector⟩ halvedRow
        halvedRow.whole = .ok plan → plan.sectors = halvedRow.sectors := by
  have hbound : row.bindSector "low" ⟨.origin, ⟨2, 1, 1⟩, "bit"⟩ = .ok halvedRow := rfl
  have hreached : halvedRow.Reached (.origin ≤ ·) :=
    .declared (.bare "row" "bit" row.ids) (Point.le_def.2 (by decide)) hbound
  have hways := (sectors_contained row).1 (.new "row" "bit" ⟨⟨4, 1, 1⟩, rfl⟩) rfl rfl "low" .origin
    ⟨2, 1, 1⟩ "bit" none
  exact ⟨⟨rfl, rfl, hways⟩, hreached, (sectors_contained halvedRow).2 (.origin ≤ ·) hreached⟩

/-- **A sector with a negative extent is accepted by a slot**, although it starts outside; a plan of
the same size refuses it, and so the slot cannot be passed on as a whole. -/
theorem negative_sector_accepted :
    ¬ ((Point.mk 5 0 0).isInside row.size = true) ∧
    (∃ t, row.bindSector "a" ⟨⟨5, 0, 0⟩, ⟨-2, 1, 1⟩, "bit"⟩ = .ok t ∧
      ∀ (name : String) (kind : Option String) (scheme slotName : String),
        ¬ ∃ plan, Assembly.forwardPlan name kind ⟨scheme, slotName, wholeSector⟩ t t.whole
          = .ok plan) ∧
    (SlotPlan.new "row" "bit" ⟨⟨4, 1, 1⟩, rfl⟩).addSector "a" ⟨5, 0, 0⟩ ⟨-2, 1, 1⟩ none
      = .error (.negativeSize ⟨-2, 1, 1⟩) := by
  refine ⟨by decide, ⟨_, rfl, ?_⟩, rfl⟩
  rintro name kind scheme slotName ⟨plan, hplan⟩
  cases hplan

end Slot

end Breadboard
