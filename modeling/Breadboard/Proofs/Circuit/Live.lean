import Breadboard.Preset.Cube
import Breadboard.Proofs.Circuit.Closed

/-!
**Only gates and timers are wired.**

Blocks take no signals and emit none.  In a live circuit no slot addresses a block, and every
connection leads from a gate or timer to a gate or timer.  No call checks this: circuits begin that
way, as a device has slots only if it is a gate or a timer, and edits renumber references together
with the units they lead to.  Placeholders may be of any size, so an edit may end before the
bounding box is known; the references are renumbered by then.

Main definitions:

* `Circuit.LeadsToLogic` — a reference leads to a gate or timer;
* `Circuit.Live` — only gates and timers are wired.

Main results:

* `Circuit.live_ofDevice`, `Circuit.live_cube` — devices without connections are live;
* `Circuit.Live.of_follows` — references that follow their units stay live;
* `Circuit.live_perform` — **edits keep a circuit live**, whether they fail or not.
-/

set_option autoImplicit false
set_option relaxedAutoImplicit false

namespace Breadboard

/-- The part takes and emits signals. -/
def Part.isLogic (p : Part) : Bool := p.hasInput && p.hasOutput

/-- No part takes signals without emitting any, or emits signals without taking any. -/
theorem Part.hasInput_eq_isLogic (p : Part) : p.hasInput = p.isLogic := by
  cases p <;> rfl

theorem Part.hasOutput_eq_isLogic (p : Part) : p.hasOutput = p.isLogic := by
  cases p <;> rfl

namespace Circuit

/-! ### Live circuits -/

/-- The reference leads to a unit that takes and emits signals. -/
def LeadsToLogic (units : List Element) (i : Int) : Prop :=
  0 ≤ i ∧ ∃ e, units[i.toNat]? = some e ∧ e.part.isLogic = true

theorem LeadsToLogic.inRange {units : List Element} {i : Int} (h : LeadsToLogic units i) :
    0 ≤ i ∧ i < units.length := by
  obtain ⟨h0, e, he, _⟩ := h
  have hlt := (List.getElem?_eq_some_iff.1 he).1
  omega

/-- Slots address gates and timers only, and connections lead from these to these only. -/
structure Live (c : Circuit) : Prop where
  slots : ∀ side, ∀ s ∈ c.slots side, s.All (LeadsToLogic c.units)
  senders : ∀ e ∈ c.units, e.wires ≠ [] → e.part.isLogic = true
  receivers : ∀ e ∈ c.units, ∀ w ∈ e.wires, LeadsToLogic c.units w

namespace Live

variable {c : Circuit}

theorem slotsInRange (h : c.Live) : c.SlotsInRange := by
  intro side s hs p i hi
  exact (h.slots side s hs p i hi).inRange

theorem wiresInRange (h : c.Live) : c.WiresInRange := by
  intro e he w hw
  exact (h.receivers e he w hw).inRange

/-- The size plays no part in it. -/
theorem of_bounds (h : c.Live) (bounds : Point) : ({ c with bounds := bounds } : Circuit).Live :=
  ⟨fun side => by cases side <;> [exact h.slots .input; exact h.slots .output], h.senders,
    h.receivers⟩

/-- References that follow their units lead to gates and timers as before. -/
theorem of_follows (h : c.Live) {φ : Int → Option Int} {f : Slot → Slot} {units : List Element}
    (bounds : Point)
    (hφ : ∀ i j, LeadsToLogic c.units i → φ i = some j → LeadsToLogic units j)
    (hslots : ∀ s p i, i ∈ (f s).getPoint p → ∃ j ∈ s.getPoint p, φ j = some i)
    (hunits : ∀ e ∈ units, e.wires = [] ∨ ∃ u ∈ c.units, e.part = u.part
      ∧ ∀ w ∈ e.wires, ∃ v ∈ u.wires, φ v = some w) :
    (⟨units, c.inputs.map f, c.outputs.map f, bounds⟩ : Circuit).Live := by
  have hside (side : Side) : (⟨units, c.inputs.map f, c.outputs.map f, bounds⟩ : Circuit).slots side
      = (c.slots side).map f := by cases side <;> rfl
  refine ⟨?_, ?_, ?_⟩
  · intro side s hs p i hi
    rw [hside] at hs
    obtain ⟨t, ht, rfl⟩ := List.mem_map.1 hs
    obtain ⟨j, hj, hji⟩ := hslots t p i hi
    exact hφ j i (h.slots side t ht p j hj) hji
  · intro e he hne
    rcases hunits e he with hnil | ⟨u, hu, hpart, hwires⟩
    · exact absurd hnil hne
    · rw [hpart]
      refine h.senders u hu ?_
      obtain ⟨w, hw⟩ := List.exists_mem_of_ne_nil _ hne
      obtain ⟨v, hv, _⟩ := hwires w hw
      exact List.ne_nil_of_mem hv
  · intro e he w hw
    rcases hunits e he with hnil | ⟨u, hu, _, hwires⟩
    · rw [hnil] at hw
      cases hw
    · obtain ⟨v, hv, hvw⟩ := hwires w hw
      exact hφ v w (h.receivers u hu v hv) hvw

end Live

/-! ### Devices without connections -/

/-- Units without connections whose slots address gates and timers. -/
theorem live_of_build {units : List Element} {inputs outputs : List Slot} {c : Circuit}
    (h : build units inputs outputs = .ok c) (hbare : ∀ e ∈ units, e.wires = [])
    (hin : ∀ s ∈ inputs, ∀ p, ∀ i ∈ s.getPoint p, ∀ e, units[i.toNat]? = some e →
      e.part.isLogic = true)
    (hout : ∀ s ∈ outputs, ∀ p, ∀ i ∈ s.getPoint p, ∀ e, units[i.toNat]? = some e →
      e.part.isLogic = true) : c.Live := by
  obtain ⟨hunits, hinputs, houtputs, _⟩ := build_eq_ok h
  have hrange := slotsInRange_of_build h
  refine ⟨?_, ?_, ?_⟩
  · intro side s hs p i hi
    obtain ⟨h0, hlt⟩ := hrange side s hs p i hi
    have hi' : i.toNat < c.units.length := by omega
    refine ⟨h0, c.units[i.toNat], List.getElem?_eq_getElem hi', ?_⟩
    have hunit : units[i.toNat]? = some c.units[i.toNat] := by
      rw [← hunits]
      exact List.getElem?_eq_getElem hi'
    cases side with
    | input =>
        rw [slots, hinputs] at hs
        exact hin s hs p i hi _ hunit
    | output =>
        rw [slots, houtputs] at hs
        exact hout s hs p i hi _ hunit
  · intro e he hne
    rw [hunits] at he
    exact absurd (hbare e he) hne
  · intro e he w hw
    rw [hunits] at he
    rw [hbare e he] at hw
    cases hw

theorem live_ofDevice {d : Device} {c : Circuit} (hbare : d.wires = [])
    (h : ofDevice d = .ok c) : c.Live := by
  have hslots : ∀ needed, needed = d.part.isLogic → ∀ s ∈ deviceSlots needed, ∀ p, ∀ i ∈ s.getPoint p,
      ∀ e, ([⟨d, .origin, .identity⟩] : List Element)[i.toNat]? = some e →
        e.part.isLogic = true := by
    rintro _ rfl s hs p i hi e he
    obtain rfl := List.mem_singleton.1 (List.mem_of_getElem? he)
    unfold deviceSlots at hs
    split at hs
    · assumption
    · cases hs
  refine live_of_build h (fun e he => ?_) (hslots _ d.part.hasInput_eq_isLogic)
    (hslots _ d.part.hasOutput_eq_isLogic)
  obtain rfl := List.mem_singleton.1 he
  exact hbare

theorem live_cube {size : Size} {d : Device} {turn : Turn} {kind : String} {c : Circuit}
    (hbare : d.wires = []) (h : cube size d turn kind = .ok c) : c.Live := by
  obtain ⟨inputs, outputs, hin, hout, h⟩ := cube_eq_ok_iff.1 h
  have hslots : ∀ needed slots, needed = d.part.isLogic → cubeSlots size kind needed = .ok slots →
      ∀ s ∈ slots, ∀ p, ∀ i ∈ s.getPoint p, ∀ e,
        (size.extents.box.map fun p => (⟨d, p, turn⟩ : Element))[i.toNat]? = some e →
          e.part.isLogic = true := by
    rintro _ slots rfl hmade s hs p i hi e he
    obtain ⟨q, _, rfl⟩ := List.mem_map.1 (List.mem_of_getElem? he)
    exact (mem_cubeSlots hmade hs).1
  refine live_of_build h (fun e he => ?_) (hslots _ _ d.part.hasInput_eq_isLogic hin)
    (hslots _ _ d.part.hasOutput_eq_isLogic hout)
  obtain ⟨q, _, rfl⟩ := List.mem_map.1 he
  exact hbare

/-! ### Edits -/

/-- The bounding box changes the size only, and nothing if there is none. -/
theorem final_refreshBounds (c : Circuit) :
    ∃ bounds, final refreshBounds c = { c with bounds := bounds } := by
  cases hbox : boundingBox c.units with
  | ok box => exact ⟨box.2, final_of_ok (refreshBounds_eq_ok hbox)⟩
  | error fault => exact ⟨c.bounds, final_of_error (refreshBounds_eq_error hbox)⟩

theorem Live.final_refreshBounds {c : Circuit} (h : c.Live) : (final refreshBounds c).Live := by
  obtain ⟨bounds, hfinal⟩ := Circuit.final_refreshBounds c
  rw [hfinal]
  exact h.of_bounds bounds

/-- An action that ends with the bounding box of a live circuit. -/
theorem Live.final_of_refreshBounds {α : Type} {act : CircuitM α} {a : α} {c d : Circuit}
    (h : d.Live) (hact : act c = (do refreshBounds; pure a) d) : (final act c).Live := by
  have hrefreshed := h.final_refreshBounds
  cases hbox : refreshBounds d with
  | ok _ c' =>
      rw [final_of_ok hbox] at hrefreshed
      rw [final_of_ok (hact.trans (Loop.bind_of_ok hbox))]
      exact hrefreshed
  | error fault c' =>
      have hfails : act c = .error fault c' := by
        rw [hact]
        simp only [bind, EStateM.bind, hbox]
      rw [final_of_error hbox] at hrefreshed
      rw [final_of_error hfails]
      exact hrefreshed

section Edits

variable {c : Circuit}

/-- A turned circuit has the parts and the references that it had. -/
theorem live_rotate (h : c.Live) (t : Turn) : (final (rotate t) c).Live := by
  cases hunits : c.units.mapM (rotateUnit t) with
  | error fault =>
      rw [final_of_error (rotate_eq_error hunits)]
      exact h
  | ok units =>
      have hall := Loop.mapM_eq_ok_iff.1 hunits
      have hunit : ∀ e u, rotateUnit t e = .ok u → u.part = e.part ∧ u.wires = e.wires := by
        intro e u hu
        obtain ⟨pos, _, hu⟩ := Fault.bind_eq_ok_iff.1 hu
        cases hu
        exact ⟨rfl, rfl⟩
      have hlive : (⟨units, c.inputs.map id, c.outputs.map id, c.bounds⟩ : Circuit).Live := by
        refine h.of_follows (φ := some) c.bounds ?_ (fun s p i hi => ⟨i, hi, rfl⟩) ?_
        · rintro i j ⟨h0, e, he, hlogic⟩ hij
          obtain rfl := Option.some.inj hij
          have hi : i.toNat < units.length := by
            rw [← hall.length_eq]
            exact (List.getElem?_eq_some_iff.1 he).1
          have hturn := (List.forall₂_iff_get.1 hall).2 i.toNat
            (List.getElem?_eq_some_iff.1 he).1 hi
          obtain ⟨hpart, _⟩ := hunit _ _ hturn
          refine ⟨h0, units[i.toNat], List.getElem?_eq_getElem hi, ?_⟩
          obtain ⟨_, rfl⟩ := List.getElem?_eq_some_iff.1 he
          exact (congrArg Part.isLogic hpart).trans hlogic
        · intro e he
          obtain ⟨u, hu, hturn⟩ := Loop.exists_of_mem_mapM hunits he
          obtain ⟨hpart, hwires⟩ := hunit u e hturn
          refine .inr ⟨u, hu, hpart, fun w hw => ⟨w, ?_, rfl⟩⟩
          rwa [← hwires]
      rw [List.map_id, List.map_id] at hlive
      rw [final, rotate_eq hunits]
      exact hlive.final_refreshBounds

/-- The number of a unit after another one has left. -/
def numberWithout (k i : Int) : Option Int :=
  if i = k then none else some (if k < i then i - 1 else i)

theorem dropFrom_eq (k : Int) (ids : List Int) :
    Renumbering.dropFrom k (-1) ids = ids.filterMap (numberWithout k) := by
  induction ids with
  | nil => rfl
  | cons i rest ih =>
      rw [Renumbering.dropFrom] at ih ⊢
      by_cases hi : i = k
      · simp [numberWithout, hi, ih]
      · simp [numberWithout, hi, ih]
        split <;> omega

/-- A unit that stays is found under its new number. -/
theorem LeadsToLogic.without {k : Nat} {i : Int} (h : LeadsToLogic c.units i) (hne : i ≠ k) :
    LeadsToLogic (c.without k).units (if (k : Int) < i then i - 1 else i) := by
  obtain ⟨h0, u, hu, hlogic⟩ := h
  refine ⟨by split <;> omega, { u with wires := Renumbering.dropFrom k (-1) u.wires }, ?_, hlogic⟩
  rw [Circuit.without, List.getElem?_map, List.getElem?_eraseIdx]
  split
  · -- the unit stands behind the one that leaves
    have hlater : ¬ (i - 1).toNat < k := by omega
    have hnumber : (i - 1).toNat + 1 = i.toNat := by omega
    rw [if_neg hlater, hnumber, hu]
    rfl
  · have hbefore : i.toNat < k := by omega
    rw [if_pos hbefore, hu]
    rfl

/-- References to later units follow when a unit leaves. -/
theorem live_removeUnit (h : c.Live) (index : Int) : (final (removeUnit index) c).Live := by
  cases hunit : (if 0 ≤ index then c.units[index.toNat]? else none) with
  | none =>
      rw [final_of_error (removeUnit_eq_error hunit)]
      exact h
  | some e =>
      have hlive : (c.without index.toNat).Live := by
        refine h.of_follows (φ := numberWithout index.toNat) c.bounds ?_ ?_ ?_
        · intro i j hi hij
          unfold numberWithout at hij
          split at hij
          · cases hij
          · rename_i hne
            obtain rfl := Option.some.inj hij
            exact hi.without hne
        · intro s p i hi
          rw [Slot.getPoint_dropUnit, dropFrom_eq] at hi
          exact List.mem_filterMap.1 hi
        · intro u hu
          obtain ⟨v, hv, rfl⟩ := List.mem_map.1 hu
          refine .inr ⟨v, List.mem_of_mem_eraseIdx hv, rfl, fun w hw => ?_⟩
          rw [dropFrom_eq] at hw
          obtain ⟨x, hx, hxw⟩ := List.mem_filterMap.1 hw
          exact ⟨x, hx, hxw⟩
      exact hlive.final_of_refreshBounds (removeUnit_eq hunit)

/-- What a slot addresses after a table it addressed before. -/
theorem exists_of_mem_renumbered {table : List (Option Int)} {s : Slot} {p : Point} {i : Int}
    (h : i ∈ (s.renumbered table).getPoint p) :
    ∃ j ∈ s.getPoint p, Renumbering.image table j = some i := by
  rw [Slot.getPoint_renumbered] at h
  exact List.mem_filterMap.1 h

/-- The marked units of a live circuit are a live circuit. -/
theorem live_keepUnits (h : c.Live) {flags : List Bool} (hlength : flags.length = c.units.length) :
    (final (keepUnits flags) c).Live := by
  have hlive : (c.renumbered (Renumbering.keep flags) c.bounds).Live := by
    refine h.of_follows c.bounds ?_ (fun s p i hi => exists_of_mem_renumbered hi) ?_
    · rintro i j ⟨h0, u, hu, hlogic⟩ hij
      rw [Renumbering.numbers_keep] at hij
      split at hij
      · rename_i hflag
        obtain rfl := Option.some.inj hij
        refine ⟨by omega, renumberedUnit (Renumbering.keep flags) u, ?_, hlogic⟩
        rw [Int.toNat_natCast, Renumbering.keep, getElem?_keptUnits hflag, List.getElem?_map, hu]
        rfl
      · cases hij
    · intro e he
      obtain ⟨u, hu, rfl⟩ := List.mem_map.1 (mem_of_mem_keptUnits he)
      refine .inr ⟨u, hu, rfl, fun w hw => ?_⟩
      obtain ⟨v, hv, hvw⟩ := List.mem_filterMap.1 hw
      exact ⟨v, hv, hvw⟩
  by_cases hcount : flags.count false = 0
  · have hkept : keepUnits flags c = .ok (flags.count false) c := by
      rw [keepUnits]
      simp only [hcount, if_true]
      rfl
    rw [final_of_ok hkept]
    exact h
  · have htable : (Renumbering.keep flags).length = c.units.length := by
      rw [Renumbering.keep, Renumbering.length_keepFrom, hlength]
    have hkept : keepUnits flags c
        = (do refreshBounds; pure (flags.count false) : CircuitM Nat)
            (c.renumbered (Renumbering.keep flags) c.bounds) := by
      rw [keepUnits]
      simp only [if_neg hcount]
      show (applyTable _ >>= _) c = (refreshBounds >>= _) _
      simp only [bind, EStateM.bind, applyTable_eq htable h.slotsInRange h.wiresInRange]
    exact hlive.final_of_refreshBounds hkept

/-- A unit that is there and not unused is marked. -/
theorem flag_of_not_isUnused {flags : List Bool} {w : Int} (h0 : 0 ≤ w) (hlt : w < flags.length)
    (h : (!isUnused flags w) = true) : flags[w.toNat]? = some true := by
  have hw : w.toNat < flags.length := by omega
  rw [isUnused, List.getElem?_eq_getElem hw] at h
  rw [List.getElem?_eq_getElem hw]
  cases hflag : flags[w.toNat] with
  | true => rfl
  | false => simp [hflag, h0] at h

/-- Placeholders send nothing, and nothing leads to them any more. -/
theorem live_replaceUnused (h : c.Live) (placeholder : Device) :
    (final (replaceUnused placeholder) c).Live := by
  obtain ⟨flags, hflags, huses⟩ := usedFlags_eq_ok h.slotsInRange h.wiresInRange
  have hlength := huses.length_eq
  have hmarked : ∀ (i : Nat) (u : Element), c.units[i]? = some u → flags[i]? = some true →
      (c.replaced flags placeholder c.bounds).units[i]?
        = some { u with wires := u.wires.filter fun w => !isUnused flags w } := by
    intro i u hu hflag
    have hzip : (c.units.zip flags)[i]? = some (u, true) :=
      List.getElem?_zip_eq_some.2 ⟨hu, hflag⟩
    rw [replaced, List.getElem?_map, hzip]
    rfl
  have hlive : (c.replaced flags placeholder c.bounds).Live := by
    refine h.of_follows c.bounds ?_ (fun s p i hi => exists_of_mem_renumbered hi) ?_
    · rintro i j ⟨h0, u, hu, hlogic⟩ hij
      rw [Renumbering.numbers_keepInPlace] at hij
      split at hij
      · rename_i hflag
        obtain rfl := Option.some.inj hij
        rw [id_eq, Int.toNat_of_nonneg h0]
        exact ⟨h0, _, hmarked _ u hu hflag, hlogic⟩
      · cases hij
    · intro e he
      obtain ⟨⟨u, flag⟩, hu, rfl⟩ := List.mem_map.1 he
      cases flag with
      | false => exact .inl rfl
      | true =>
          refine .inr ⟨u, (List.of_mem_zip hu).1, rfl, fun w hw => ?_⟩
          obtain ⟨hw, hused⟩ := List.mem_filter.1 hw
          refine ⟨w, hw, ?_⟩
          obtain ⟨h0, hlt⟩ := (h.receivers u (List.of_mem_zip hu).1 w hw).inRange
          have hflag := flag_of_not_isUnused h0 (by omega) hused
          rw [Renumbering.numbers_keepInPlace, if_pos hflag]
          rw [id_eq, Int.toNat_of_nonneg h0]
  exact hlive.final_of_refreshBounds
    (replaceUnused_eq placeholder hflags hlength h.slotsInRange)

/-- **Edits keep a circuit live**, whether they fail or not. -/
theorem live_perform (h : c.Live) (edit : Edit) : (edit.perform c).Live := by
  cases edit with
  | rotate turn => exact live_rotate h turn
  | removeUnit index => exact live_removeUnit h index
  | filterUnits keep => exact live_keepUnits h (List.length_map _)
  | removeUnused =>
      obtain ⟨flags, hflags, huses⟩ := usedFlags_eq_ok h.slotsInRange h.wiresInRange
      show (final Circuit.removeUnused c).Live
      rw [final, removeUnused_eq hflags]
      exact live_keepUnits h huses.length_eq
  | replaceUnused placeholder => exact live_replaceUnused h placeholder

end Edits

end Circuit

end Breadboard
