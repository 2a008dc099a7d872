import Breadboard.Proofs.Wiring.SlotPlan
import Breadboard.Proofs.Wiring.Total

/-!
**Drafted plans.**

A plan is drafted by calls that add entries and declare sectors, and a call that fails leaves a plan
behind as well.  The sectors of a drafted plan have different names and fit the slot.  So nothing
but the size of the box can go wrong when the slot is made: every point that an entry leads to has a
place in the new slot, and the sectors can be declared once more, one by one.

Main definitions:

* `Slot.SectorsFit` — sectors as they can be declared, one after the other;
* `SlotPlan.Edit`, `SlotPlan.Drafted` — the calls that draft a plan, and the plans that they draft;
* `SlotPlan.Proper` — the sectors fit, and the wirings do not fail;
* `SlotPlan.makeChecked` — making a slot with all conditions of its construction checked.

Main results:

* `SlotPlan.Edit.proper_perform` — every call keeps a plan proper, whether it fails or not;
* `SlotPlan.Drafted.proper` — **drafted plans are proper**;
* `SlotPlan.Proper.exists_make`, `SlotPlan.make_eq_error` — **a proper plan is made, whatever its
  paths lead to**, unless its box is refused;
* `SlotPlan.Proper.makeChecked_eq` — **and no condition of its construction fails**.
-/

set_option autoImplicit false
set_option relaxedAutoImplicit false

namespace Breadboard

namespace Slot

/-- Sectors as they can be declared one after the other in a slot of the given size: they have
different names, none stands for the whole slot, and they fit. -/
structure SectorsFit (size : Point) (sectors : Keyed Sector) : Prop where
  distinct : (Keyed.names sectors).Nodup
  named : wholeSector ∉ Keyed.names sectors
  fit : ∀ s ∈ sectors, Point.boxFits s.2.pos s.2.size size = true

/-- A new sector passes the check if it has a name that is not in use, and fits. -/
theorem checkSector_eq_ok_iff {slotName name : String} {size : Point} {sectors : Keyed Sector}
    {sector : Sector} : checkSector slotName size sectors name sector = .ok () ↔
      name ≠ wholeSector ∧ name ∉ Keyed.names sectors
        ∧ Point.boxFits sector.pos sector.size size = true := by
  rw [checkSector, ← Keyed.has_iff]
  by_cases hname : name = wholeSector ∨ Keyed.has name sectors = true
  · rw [if_pos hname]
    rcases hname with h | h <;> simp [h]
  · rw [if_neg hname]
    rw [not_or] at hname
    cases hfit : Point.boxFits sector.pos sector.size size <;> simp [hname]

theorem sectorsFit_nil (size : Point) : SectorsFit size [] :=
  ⟨List.nodup_nil, List.not_mem_nil, by simp⟩

/-- One more sector that passes the check. -/
theorem SectorsFit.concat {size : Point} {sectors : Keyed Sector} (h : SectorsFit size sectors)
    {slotName name : String} {sector : Sector}
    (hcheck : checkSector slotName size sectors name sector = .ok ()) :
    SectorsFit size (sectors ++ [(name, sector)]) := by
  obtain ⟨hwhole, hnew, hfit⟩ := checkSector_eq_ok_iff.1 hcheck
  have hnames : Keyed.names (sectors ++ [(name, sector)]) = Keyed.names sectors ++ [name] := by
    rw [Keyed.names, List.map_append]
    rfl
  refine ⟨?_, ?_, ?_⟩
  · rw [hnames, ← List.concat_eq_append, List.nodup_concat]
    exact ⟨hnew, h.distinct⟩
  · rw [hnames, List.mem_append, List.mem_singleton]
    rintro (hold | hlast)
    · exact h.named hold
    · exact hwhole hlast.symm
  · intro s hs
    rcases List.mem_append.1 hs with hold | hlast
    · exact h.fit s hold
    · rw [List.mem_singleton.1 hlast]
      exact hfit

/-- The sectors before the last ones can be declared as well, and the next one passes the check. -/
theorem SectorsFit.checkSector_of_append {size : Point} {sectors rest : Keyed Sector}
    {name : String} {sector : Sector} (h : SectorsFit size (sectors ++ (name, sector) :: rest))
    (slotName : String) : checkSector slotName size sectors name sector = .ok () := by
  have hmem : (name, sector) ∈ sectors ++ (name, sector) :: rest :=
    List.mem_append_right _ List.mem_cons_self
  refine checkSector_eq_ok_iff.2 ⟨?_, ?_, h.fit _ hmem⟩
  · rintro rfl
    exact h.named (List.mem_map_of_mem hmem)
  · intro hname
    have hdistinct := h.distinct
    rw [Keyed.names, List.map_append, List.map_cons, List.nodup_middle] at hdistinct
    exact (List.nodup_cons.1 hdistinct).1 (List.mem_append_left _ hname)

/-- Sectors that fit are declared one after the other. -/
theorem foldlM_bindSector {s : Slot} {sectors : Keyed Sector}
    (h : SectorsFit s.size (s.sectors ++ sectors)) :
    sectors.foldlM (fun (s : Slot) (sub : String × Sector) => s.bindSector sub.1 sub.2) s
      = .ok { s with sectors := s.sectors ++ sectors } := by
  induction sectors generalizing s with
  | nil => rw [List.append_nil]; rfl
  | cons sub rest ih =>
      obtain ⟨name, sector⟩ := sub
      have hbound : s.bindSector name sector
          = .ok { s with sectors := s.sectors ++ [(name, sector)] } := by
        rw [bindSector, h.checkSector_of_append s.name]
        rfl
      have hassoc : s.sectors ++ (name, sector) :: rest
          = s.sectors ++ [(name, sector)] ++ rest := by simp
      rw [List.foldlM_cons]
      simp only [hbound, Fault.ok_bind]
      rw [hassoc] at h ⊢
      exact ih (s := { s with sectors := s.sectors ++ [(name, sector)] }) h

end Slot

namespace SlotPlan

/-! ### Drafting -/

/-- The plan that an action leaves behind, whether it fails or not. -/
def final (act : EStateM Fault SlotPlan Unit) (plan : SlotPlan) : SlotPlan :=
  match act plan with
  | .ok _ next => next
  | .error _ next => next

/-- What an action for every point keeps, whether it fails or not, all actions in a row keep. -/
theorem final_forM {Good : SlotPlan → Prop} {act : Point → EStateM Fault SlotPlan Unit}
    (hact : ∀ p plan, Good plan → Good (final (act p) plan)) {plan : SlotPlan} (h : Good plan)
    (points : List Point) : Good (final (points.forM act) plan) := by
  induction points generalizing plan with
  | nil => exact h
  | cons p rest ih =>
      have hnext := hact p plan h
      show Good (final (act p >>= fun _ => rest.forM act) plan)
      simp only [final, bind, EStateM.bind] at hnext ⊢
      cases hp : act p plan with
      | ok _ next =>
          rw [hp] at hnext
          exact ih hnext
      | error fault next =>
          rw [hp] at hnext
          exact hnext

/-- A call that drafts a plan. -/
inductive Edit where
  | attach (corner size : Point) (path : String) (wiring : Wiring)
  | attachFull (path : String) (wiring : Wiring)
  | attachPoints (pathOf : Point → Option String)
  | addSector (name : String) (corner size : Point) (kind : Option String)
  | addPointSectors (kind : String) (nameOf : Point → String)

namespace Edit

/-- The plan that a call leaves behind, whether it fails or not. -/
def perform : Edit → SlotPlan → SlotPlan
  | .attach corner size path wiring, plan =>
      (plan.attach corner size path wiring).toOption.getD plan
  | .attachFull path wiring, plan => plan.attachFull path wiring
  | .attachPoints pathOf, plan => plan.attachPoints pathOf
  | .addSector name corner size kind, plan =>
      (plan.addSector name corner size kind).toOption.getD plan
  | .addPointSectors kind nameOf, plan => final (SlotPlan.addPointSectors kind nameOf) plan

/-- The wiring that a call is given does not fail. -/
def Total : Edit → Prop
  | .attach _ _ _ wiring => wiring.Total
  | .attachFull _ wiring => wiring.Total
  | _ => True

end Edit

/-- Plans that are drafted by calls with wirings that do not fail. -/
inductive Drafted : SlotPlan → Prop where
  | new (name kind : String) (size : Size) : Drafted (.new name kind size)
  | edited {plan : SlotPlan} (edit : Edit) (total : edit.Total) (drafted : Drafted plan) :
      Drafted (edit.perform plan)

/-- The sectors of a plan fit, and the wirings of its entries do not fail. -/
structure Proper (plan : SlotPlan) : Prop where
  sectors : Slot.SectorsFit plan.bounds plan.sectors
  wirings : ∀ entry ∈ plan.entries, entry.wiring.Total

theorem proper_new (name kind : String) (size : Size) : (new name kind size).Proper :=
  ⟨Slot.sectorsFit_nil _, by simp [new]⟩

namespace Proper

variable {plan made : SlotPlan}

theorem push (h : plan.Proper) {entry : PlanEntry} (hentry : entry.wiring.Total) :
    (plan.push entry).Proper := by
  refine ⟨h.sectors, fun e he => ?_⟩
  rcases List.mem_append.1 he with hold | hlast
  · exact h.wirings e hold
  · rw [List.mem_singleton.1 hlast]
    exact hentry

theorem attach (h : plan.Proper) {corner size : Point} {path : String} {wiring : Wiring}
    (hwiring : wiring.Total) (hmade : plan.attach corner size path wiring = .ok made) :
    made.Proper := by
  obtain ⟨extents, _, hmade⟩ := Fault.bind_eq_ok_iff.1 hmade
  cases hmade
  exact h.push hwiring

theorem attachPoints (h : plan.Proper) (pathOf : Point → Option String) :
    (plan.attachPoints pathOf).Proper := by
  refine List.foldlRecOn plan.bounds.box _ h fun plan h p _ => ?_
  cases pathOf p with
  | none => exact h
  | some path => exact h.push .straight

/-- A sector that is declared passes the check. -/
theorem addSector (h : plan.Proper) {name : String} {corner size : Point} {kind : Option String}
    (hmade : plan.addSector name corner size kind = .ok made) : made.Proper := by
  obtain ⟨extents, _, hmade⟩ := Fault.bind_eq_ok_iff.1 hmade
  obtain ⟨⟨⟩, hcheck, hmade⟩ := Fault.bind_eq_ok_iff.1 hmade
  cases hmade
  exact ⟨h.sectors.concat hcheck, h.wirings⟩

theorem addPointSectors (h : plan.Proper) (kind : String) (nameOf : Point → String) :
    (final (addPointSectors kind nameOf) plan).Proper := by
  refine final_forM (fun p plan h => ?_) h plan.bounds.box
  rw [final, Loop.get_bind]
  cases hmade : plan.addSector (nameOf p) p .one (some kind) with
  | error fault => exact h
  | ok made => exact h.addSector hmade

end Proper

/-- **Every call keeps a plan proper**, whether it fails or not. -/
theorem Edit.proper_perform {plan : SlotPlan} (h : plan.Proper) {edit : Edit}
    (htotal : edit.Total) : (edit.perform plan).Proper := by
  cases edit with
  | attach corner size path wiring =>
      rw [perform]
      cases hmade : plan.attach corner size path wiring with
      | error fault => exact h
      | ok made => exact h.attach htotal hmade
  | attachFull path wiring => exact h.push htotal
  | attachPoints pathOf => exact h.attachPoints pathOf
  | addSector name corner size kind =>
      rw [perform]
      cases hmade : plan.addSector name corner size kind with
      | error fault => exact h
      | ok made => exact h.addSector hmade
  | addPointSectors kind nameOf => exact h.addPointSectors kind nameOf

/-- **Drafted plans are proper.** -/
theorem Drafted.proper {plan : SlotPlan} (h : plan.Drafted) : plan.Proper := by
  induction h with
  | new name kind size => exact proper_new name kind size
  | edited edit total _ ih => exact edit.proper_perform ih total

/-! ### Making the slot -/

section Making

variable {plan : SlotPlan} {scope : Scope} {side : Side}

/-- The pairs of an entry start at points of the new slot. -/
theorem isInside_of_entryPairs {entry : PlanEntry} {target : Target} {pairs : List Pair}
    (h : plan.entryPairs side entry target = .ok pairs) {pair : Pair} (hpair : pair ∈ pairs) :
    pair.1.isInside plan.bounds = true := by
  obtain ⟨p, q⟩ := pair
  cases side with
  | input =>
      obtain ⟨proposed, _, h⟩ := Fault.bind_eq_ok_iff.1 h
      cases h
      obtain ⟨a, b, _, hlift, _⟩ := Frame.mem_liftPairs.1 hpair
      obtain ⟨_, hinside, rfl⟩ := Frame.lift?_eq_some_iff.1 hlift
      exact hinside
  | output =>
      obtain ⟨proposed, _, h⟩ := Fault.bind_eq_ok_iff.1 h
      cases h
      obtain ⟨⟨u, v⟩, hswapped, hswap⟩ := List.mem_map.1 hpair
      obtain ⟨rfl, rfl⟩ := Prod.mk.inj hswap
      obtain ⟨a, b, _, _, hlift⟩ := Frame.mem_liftPairs.1 hswapped
      obtain ⟨_, hinside, rfl⟩ := Frame.lift?_eq_some_iff.1 hlift
      exact hinside

/-- An entry whose wiring does not fail puts units behind points, wherever its path leads. -/
theorem exists_entryCells {entry : PlanEntry} (h : entry.wiring.Total) (plan : SlotPlan)
    (scope : Scope) (side : Side) : ∃ items, plan.entryCells scope side entry = .ok items := by
  unfold entryCells
  cases scope.resolve entry.path with
  | error missing => exact ⟨[], rfl⟩
  | ok target =>
      have hpairs : ∃ pairs, plan.entryPairs side entry target = .ok pairs := by
        cases side with
        | input =>
            obtain ⟨proposed, hproposed⟩ := h.exists_pairs entry.size target.sector.size
            exact ⟨_, Fault.bind_eq_ok_iff.2 ⟨proposed, hproposed, rfl⟩⟩
        | output =>
            obtain ⟨proposed, hproposed⟩ := h.exists_pairs target.sector.size entry.size
            exact ⟨_, Fault.bind_eq_ok_iff.2 ⟨proposed, hproposed, rfl⟩⟩
      obtain ⟨pairs, hpairs⟩ := hpairs
      exact ⟨_, Fault.bind_eq_ok_iff.2 ⟨pairs, hpairs, rfl⟩⟩

/-- **A proper plan is made, whatever its paths lead to**, unless its box is refused. -/
theorem Proper.exists_make (h : plan.Proper) (hsize : plan.size.HoldableIfEmpty) (scope : Scope)
    (side : Side) : ∃ made, plan.make scope side = .ok made := by
  obtain ⟨items, hitems⟩ := Loop.mapM_isOk_iff.2 fun entry hentry =>
    exists_entryCells (h.wirings entry hentry) plan scope side
  exact ⟨_, make_eq_ok_iff.2 ⟨hsize, items, hitems, rfl, rfl⟩⟩

/-- A plan whose box is refused is not made. -/
theorem make_eq_error (hsize : ¬ plan.size.HoldableIfEmpty) (scope : Scope) (side : Side) :
    ∃ fault, fault.RefusesBox ∧ plan.make scope side = .error fault := by
  obtain ⟨fault, hrefuses, hcheck⟩ := Size.checkEmpty_eq_error hsize
  refine ⟨fault, hrefuses, ?_⟩
  rw [make, hcheck, Fault.error_bind]

/-- A proper plan that is not made is refused for its box. -/
theorem Proper.refuses_of_make (h : plan.Proper) {fault : Fault}
    (hmake : plan.make scope side = .error fault) : fault.RefusesBox := by
  by_cases hsize : plan.size.HoldableIfEmpty
  · obtain ⟨made, hmade⟩ := h.exists_make hsize scope side
    rw [hmade] at hmake
    cases hmake
  · obtain ⟨other, hrefuses, hother⟩ := make_eq_error hsize scope side
    rw [hother] at hmake
    cases hmake
    exact hrefuses

/-! ### Making the slot with all checks -/

/-- The units behind the target's points, appended behind points that the new slot has to have. -/
def collectChecked (target : Target) (cells : Dense (List Int)) (pairs : List Pair) :
    Except Fault (Dense (List Int)) :=
  pairs.foldlM (fun cells pair => match cells.get? pair.1 with
    | some _ => .ok (cells.modify pair.1 fun ids => ids ++ target.unitsAt pair.2)
    | none => .error .noSuchOperation) cells

/-- One entry is followed, or reported, where the new slot has to have all points. -/
def followChecked (plan : SlotPlan) (scope : Scope) (side : Side)
    (made : Dense (List Int) × List Unresolved) (entry : PlanEntry × Nat) :
    Except Fault (Dense (List Int) × List Unresolved) :=
  match scope.resolve entry.1.path with
  | .error missing => .ok (made.1, made.2 ++ [⟨entry.2, missing⟩])
  | .ok target => do
      let pairs ← plan.entryPairs side entry.1 target
      pure (← collectChecked target made.1 pairs, made.2)

/-- The planned slot, constructed with all checks: the units have to fill a box of the slot's size,
and every sector is declared once more. -/
def makeChecked (plan : SlotPlan) (scope : Scope) (side : Side) :
    Except Fault (Slot × List Unresolved) := do
  plan.size.checkEmpty
  let made ← plan.entries.zipIdx.foldlM (plan.followChecked scope side)
    (Dense.filled plan.size [], [])
  let bare ← Slot.ofMap? plan.name plan.kind plan.bounds made.1
  let slot ← plan.sectors.foldlM
    (fun (s : Slot) (sub : String × Sector) => s.bindSector sub.1 sub.2) bare
  pure (slot, made.2)

/-- Points that the slot has are found. -/
theorem collectChecked_eq {target : Target} {cells : Dense (List Int)} {pairs : List Pair}
    (h : ∀ pair ∈ pairs, pair.1.isInside cells.size = true) :
    collectChecked target cells pairs = .ok (collect target cells pairs) := by
  induction pairs generalizing cells with
  | nil => rfl
  | cons pair rest ih =>
      have hfound : ∃ ids, cells.get? pair.1 = some ids :=
        Option.isSome_iff_exists.1 (Dense.get?_isSome (h pair List.mem_cons_self))
      obtain ⟨ids, hids⟩ := hfound
      rw [collectChecked, List.foldlM_cons, hids]
      exact ih fun next hnext => h next (List.mem_cons_of_mem pair hnext)

/-- Following an entry passes the checks if the slot has the size that was planned. -/
theorem followChecked_eq {made : Dense (List Int) × List Unresolved}
    (hsize : made.1.size = plan.bounds) (entry : PlanEntry × Nat) :
    plan.followChecked scope side made entry = plan.follow scope side made entry := by
  unfold followChecked follow
  cases scope.resolve entry.1.path with
  | error missing => rfl
  | ok target =>
      simp only []
      cases hpairs : plan.entryPairs side entry.1 target with
      | error fault => rfl
      | ok pairs =>
          simp only [Fault.ok_bind]
          rw [collectChecked_eq fun pair hpair => hsize ▸ isInside_of_entryPairs hpairs hpair]
          rfl

/-- No condition of its construction fails for a plan whose sectors fit. -/
theorem makeChecked_eq_of_fit (h : Slot.SectorsFit plan.bounds plan.sectors) (scope : Scope)
    (side : Side) : plan.makeChecked scope side = plan.make scope side := by
  have hfollow : plan.entries.zipIdx.foldlM (plan.followChecked scope side)
      (Dense.filled plan.size [], [])
      = plan.entries.zipIdx.foldlM (plan.follow scope side) (Dense.filled plan.size [], []) := by
    -- following an entry does not change the size of the slot
    refine Loop.foldlM_congr (fun made => made.1.size = plan.bounds) rfl ?_
    rintro entry _ ⟨cells, missing⟩ hsize
    refine ⟨followChecked_eq hsize entry, fun next hnext => ?_⟩
    rw [follow_eq] at hnext
    obtain ⟨items, _, hnext⟩ := Fault.bind_eq_ok_iff.1 hnext
    cases hnext
    rw [Dense.size_extend]
    exact hsize
  rw [makeChecked, make, hfollow, foldlM_follow_eq]
  refine bind_congr fun _ => ?_
  cases plan.entries.mapM (plan.entryCells scope side) with
  | error fault => rfl
  | ok items =>
      have hsize : ((Dense.filled plan.size []).extend items.flatten).size = plan.bounds := by
        rw [Dense.size_extend]
        rfl
      simp only [Fault.ok_bind, pure, Except.pure]
      rw [Slot.ofMap?, if_pos hsize, Fault.ok_bind, Slot.foldlM_bindSector]
      · rfl
      · rw [List.nil_append, Slot.size, hsize]
        exact h

/-- **No condition of its construction fails for a proper plan.** -/
theorem Proper.makeChecked_eq (h : plan.Proper) (scope : Scope) (side : Side) :
    plan.makeChecked scope side = plan.make scope side :=
  makeChecked_eq_of_fit h.sectors scope side

end Making

end SlotPlan

end Breadboard
