import Breadboard.Circuit.Removal
import Breadboard.Proofs.Circuit.InRange
import Breadboard.Proofs.Renumbering

/-!
**Circuits after a renumbering.**

Slots and connections in range are renumbered without failure, and a renumbered circuit has a
bounding box if the circuit had one.  So the calls that keep marked units, or put a placeholder in
the place of the others, succeed, and their results can be written down.

Main definitions:

* `Slot.renumbered`, `Circuit.renumbered` — a slot and a circuit after a table;
* `Circuit.Trivial` — a table that changes nothing;
* `Circuit.replaced` — a circuit with a placeholder for every unit that is not marked.

Main results:

* `Slot.remap_eq_ok`, `Circuit.applyTable_eq_ok` — **renumbering succeeds**;
* `Circuit.keepUnits_eq_ok` — what keeping the marked units gives;
* `Circuit.replaceUnused_eq_ok` — what replacing the others gives.
-/

set_option autoImplicit false
set_option relaxedAutoImplicit false

namespace Breadboard

namespace Slot

/-! ### Slots -/

theorem getPoint_dropUnit (s : Slot) (id offset : Int) (p : Point) :
    (s.dropUnit id offset).getPoint p = Renumbering.dropFrom id offset (s.getPoint p) :=
  s.getPoint_map_ids p rfl

/-- A slot after a table. -/
def renumbered (table : List (Option Int)) (s : Slot) : Slot :=
  { s with ids := s.ids.map fun ids => ids.filterMap (Renumbering.image table) }

theorem getPoint_renumbered (table : List (Option Int)) (s : Slot) (p : Point) :
    (s.renumbered table).getPoint p = (s.getPoint p).filterMap (Renumbering.image table) :=
  s.getPoint_map_ids p rfl

/-- One point of a slot is renumbered. -/
theorem remapAt_eq_ok {table : List (Option Int)} {s : Slot} {p : Point}
    (h : ∀ i ∈ s.getPoint p, 0 ≤ i ∧ i < table.length) :
    remapAt table p s = .ok ()
      { s with ids := s.ids.modify p fun ids => ids.filterMap (Renumbering.image table) } := by
  have hstep : remapAt table p s = .ok ()
      { s with ids := s.ids.modify p fun _ =>
          (s.getPoint p).filterMap (Renumbering.image table) } := by
    refine Loop.get_bind.trans ?_
    rw [Renumbering.byTable_eq_ok h]
    rfl
  have hids : s.ids.modify p (fun _ => (s.getPoint p).filterMap (Renumbering.image table))
      = s.ids.modify p fun ids => ids.filterMap (Renumbering.image table) := by
    refine Dense.ext_get? rfl fun q => ?_
    rw [Dense.get?_modify, Dense.get?_modify]
    split
    · rename_i e
      cases hp : s.ids.get? p with
      | none => rw [e, hp]; rfl
      | some ids => rw [e, hp, getPoint, hp]; rfl
    · rfl
  rw [hstep, hids]

/-- Different points of a slot are renumbered one after the other. -/
theorem forM_remapAt {table : List (Option Int)} {points : List Point} (hnodup : points.Nodup)
    {s : Slot} (h : ∀ p ∈ points, ∀ i ∈ s.getPoint p, 0 ≤ i ∧ i < table.length) :
    ∃ ids : Dense (List Int), points.forM (remapAt table) s = .ok () { s with ids := ids }
      ∧ ids.size = s.ids.size
      ∧ ∀ p, ids.get? p = if p ∈ points
          then (s.ids.get? p).map fun ids => ids.filterMap (Renumbering.image table)
          else s.ids.get? p := by
  induction points generalizing s with
  | nil => exact ⟨s.ids, rfl, rfl, fun p => rfl⟩
  | cons q rest ih =>
      obtain ⟨hq, hnodup⟩ := List.nodup_cons.1 hnodup
      have hstep := remapAt_eq_ok (h q List.mem_cons_self)
      have hget (p : Point) : (s.ids.modify q fun ids =>
          ids.filterMap (Renumbering.image table)).get? p = if p = q
            then (s.ids.get? p).map fun ids => ids.filterMap (Renumbering.image table)
            else s.ids.get? p := Dense.get?_modify _ _ _ _
      -- the points that are still to come are as they were
      obtain ⟨ids, hids, hsize, hrest⟩ := ih hnodup (s := { s with ids := s.ids.modify q _ })
        fun p hp i hi => by
          have hne : p ≠ q := by rintro rfl; exact hq hp
          rw [getPoint, hget, if_neg hne] at hi
          exact h p (List.mem_cons_of_mem q hp) i hi
      refine ⟨ids, ?_, hsize, fun p => ?_⟩
      · rw [Loop.forM_cons_of_ok hstep]
        exact hids
      · rw [hrest p, hget]
        by_cases hp : p = q
        · rw [hp, if_neg hq, if_pos rfl, if_pos List.mem_cons_self]
        · simp [hp]

/-- **A slot in range is renumbered.** -/
theorem remap_eq_ok {table : List (Option Int)} {s : Slot} (h : s.InRange table.length) :
    s.remap table = .ok () (s.renumbered table) := by
  obtain ⟨ids, hids, hsize, hget⟩ :=
    forM_remapAt (Point.nodup_box s.size) (fun p _ => h p)
  have hall : ids = s.ids.map fun ids => ids.filterMap (Renumbering.image table) := by
    refine Dense.ext_get? hsize fun p => ?_
    rw [hget p, Dense.get?_map]
    split
    · rfl
    · rename_i hp
      -- outside the box there is nothing to renumber
      rw [Point.mem_box, Bool.not_eq_true] at hp
      rw [Dense.get?_eq_none hp]
      rfl
  show s.size.box.forM (remapAt table) s = _
  rw [hids, hall]
  rfl

end Slot

namespace Circuit

/-! ### Circuits -/

/-- A unit after a table. -/
def renumberedUnit (table : List (Option Int)) (e : Element) : Element :=
  { e with wires := e.wires.filterMap (Renumbering.image table) }

/-- The units to which a table gives numbers. -/
def keptUnits (table : List (Option Int)) (units : List Element) : List Element :=
  ((units.zip table).filter fun u => u.2.isSome).map Prod.fst

/-- Renumbered slots on both sides. -/
theorem remapSlots_eq_ok {table : List (Option Int)} {c : Circuit}
    (h : ∀ side, ∀ s ∈ c.slots side, s.InRange table.length) :
    remapSlots table c = .ok () { c with
      inputs := c.inputs.map (Slot.renumbered table)
      outputs := c.outputs.map (Slot.renumbered table) } := by
  have hin : Stepwise.onEach (Slot.remap table) c.inputs
      = .ok ⟨⟩ (c.inputs.map (Slot.renumbered table)) :=
    Stepwise.onEach_eq_map fun s hs => Slot.remap_eq_ok (h .input s hs)
  have hout : Stepwise.onEach (Slot.remap table) c.outputs
      = .ok ⟨⟩ (c.outputs.map (Slot.renumbered table)) :=
    Stepwise.onEach_eq_map fun s hs => Slot.remap_eq_ok (h .output s hs)
  unfold remapSlots
  simp only [bind, EStateM.bind, Stepwise.zoom, hin, hout]

/-- A circuit after a table, with the size of a bounding box. -/
def renumbered (table : List (Option Int)) (c : Circuit) (bounds : Point) : Circuit where
  units := keptUnits table (c.units.map (renumberedUnit table))
  inputs := c.inputs.map (Slot.renumbered table)
  outputs := c.outputs.map (Slot.renumbered table)
  bounds := bounds

theorem mem_of_mem_keptUnits {table : List (Option Int)} {units : List Element} {e : Element}
    (h : e ∈ keptUnits table units) : e ∈ units := by
  obtain ⟨u, hu, rfl⟩ := List.mem_map.1 h
  exact (List.of_mem_zip (List.mem_filter.1 hu).1).1

theorem keptUnits_cons_true (next : Int) (flags : List Bool) (e : Element) (rest : List Element) :
    keptUnits (Renumbering.keepFrom next (true :: flags)) (e :: rest)
      = e :: keptUnits (Renumbering.keepFrom (next + 1) flags) rest := rfl

theorem keptUnits_cons_false (next : Int) (flags : List Bool) (e : Element)
    (rest : List Element) :
    keptUnits (Renumbering.keepFrom next (false :: flags)) (e :: rest)
      = keptUnits (Renumbering.keepFrom next flags) rest := rfl

/-- As many units are kept as are marked. -/
theorem length_keptUnits {next : Int} {flags : List Bool} {units : List Element}
    (h : flags.length = units.length) :
    (keptUnits (Renumbering.keepFrom next flags) units).length = flags.count true := by
  induction flags generalizing next units with
  | nil => simp [Renumbering.keepFrom, keptUnits]
  | cons flag flags ih =>
      cases units with
      | nil => cases h
      | cons e rest =>
          have hrest : flags.length = rest.length := by simpa using h
          cases flag with
          | true => rw [keptUnits_cons_true, List.length_cons, ih hrest, List.count_cons_self]
          | false => rw [keptUnits_cons_false, ih hrest, List.count_cons_of_ne Bool.false_ne_true]

/-- The marked units are found at their ranks. -/
theorem getElem?_keptUnits {flags : List Bool} {next : Int} {units : List Element} {i : Nat}
    (h : flags[i]? = some true) :
    (keptUnits (Renumbering.keepFrom next flags) units)[Renumbering.rank flags i]? = units[i]? := by
  induction flags generalizing next units i with
  | nil => cases h
  | cons flag flags ih =>
      cases units with
      | nil => simp [keptUnits]
      | cons e rest =>
          cases i with
          | zero =>
              obtain rfl : flag = true := Option.some.inj h
              rfl
          | succ i =>
              rw [Renumbering.rank_cons_succ, List.getElem?_cons_succ]
              cases flag with
              | true =>
                  rw [if_pos rfl, Nat.add_comm, keptUnits_cons_true, List.getElem?_cons_succ]
                  exact ih h
              | false =>
                  rw [if_neg Bool.false_ne_true, Nat.zero_add, keptUnits_cons_false]
                  exact ih h

/-- Only the units that stay are changed, so it does not matter which units are changed. -/
theorem keptUnits_map {table : List (Option Int)} {units : List Element} (f : Element → Element) :
    keptUnits table (((units.zip table).map fun u =>
        if u.2.isSome then (f u.1, u.2) else u).map Prod.fst) = keptUnits table (units.map f) := by
  induction table generalizing units with
  | nil => simp [keptUnits]
  | cons entry table ih =>
      cases units with
      | nil => rfl
      | cons e rest =>
          have hrest := @ih rest
          simp only [keptUnits] at hrest ⊢
          cases entry with
          | none => simpa using hrest
          | some k => simpa using hrest

/-- Units that only differ in their connections have bounding boxes together. -/
theorem boundingBox_keptUnits {table : List (Option Int)} {units : List Element}
    (h : ∃ box, boundingBox units = .ok box) :
    ∃ box, boundingBox (keptUnits table (units.map (renumberedUnit table))) = .ok box := by
  rw [boundingBox_isOk_iff] at h ⊢
  intro e he
  obtain ⟨u, hu, rfl⟩ := List.mem_map.1 (mem_of_mem_keptUnits he)
  exact h u hu

theorem refreshBounds_eq_ok {c : Circuit} {box : Point × Point}
    (h : boundingBox c.units = .ok box) : refreshBounds c = .ok () { c with bounds := box.2 } := by
  have hanswer : answer (boundingBox c.units) c = .ok box c := by rw [h]; rfl
  show (answer (boundingBox c.units) >>= _) c = _
  rw [Loop.bind_of_ok hanswer]
  rfl

/-- Without a bounding box nothing changes. -/
theorem refreshBounds_eq_error {c : Circuit} {fault : Fault}
    (h : boundingBox c.units = .error fault) : refreshBounds c = .error fault c := by
  show (answer (boundingBox c.units) >>= _) c = _
  rw [h]
  rfl

/-- Renumbering goes as far as to the size of the bounding box, which is determined last. -/
theorem applyTable_eq {table : List (Option Int)} {c : Circuit}
    (hlength : table.length = c.units.length) (hslots : c.SlotsInRange)
    (hwires : c.WiresInRange) :
    applyTable table c = refreshBounds (c.renumbered table c.bounds) := by
  have hrange (side : Side) : ∀ s ∈ c.slots side, s.InRange table.length := by
    rw [hlength]
    exact hslots side
  -- the call walks the units beside their entries; those without one keep their wires and are
  -- dropped afterwards
  have hunit : ∀ u ∈ c.units.zip table, remapWires table u
      = .ok ⟨⟩ (if u.2.isSome then (renumberedUnit table u.1, u.2) else u) := by
    rintro ⟨e, entry⟩ hu
    cases entry with
    | none => rfl
    | some k =>
        have hwires : ∀ w ∈ e.wires, 0 ≤ w ∧ w < table.length := by
          rw [hlength]
          exact hwires e (List.of_mem_zip hu).1
        refine Loop.get_bind.trans ?_
        simp only [Renumbering.byTable_eq_ok hwires]
        rfl
  have hzoom : Stepwise.zoom (fun c : Circuit => c.units.zip table)
      (fun u c => { c with units := u.map Prod.fst }) (Stepwise.onEach (remapWires table)) c
        = .ok ⟨⟩ { c with units := ((c.units.zip table).map fun u =>
            if u.2.isSome then (renumberedUnit table u.1, u.2) else u).map Prod.fst } :=
    Stepwise.zoom_eq_ok (Stepwise.onEach_eq_map hunit)
  refine (Loop.bind_of_ok hzoom).trans ?_
  refine Loop.modify_bind.trans ?_
  refine (Loop.bind_of_ok (remapSlots_eq_ok ?_)).trans ?_
  · intro side
    cases side
    · exact hrange .input
    · exact hrange .output
  · rw [renumbered, ← keptUnits_map]
    rfl

/-- **Renumbering succeeds.** -/
theorem applyTable_eq_ok {table : List (Option Int)} {c : Circuit}
    (hlength : table.length = c.units.length) (hslots : c.SlotsInRange) (hwires : c.WiresInRange)
    (hbox : ∃ box, boundingBox c.units = .ok box) :
    ∃ bounds, applyTable table c = .ok () (c.renumbered table bounds) := by
  obtain ⟨box, hbox⟩ : ∃ box, boundingBox (keptUnits table (c.units.map (renumberedUnit table)))
      = .ok box := boundingBox_keptUnits hbox
  refine ⟨box.2, ?_⟩
  rw [applyTable_eq hlength hslots hwires]
  exact refreshBounds_eq_ok hbox

/-! ### Nothing to renumber -/

/-- A table that changes no reference and removes no unit. -/
structure Trivial (table : List (Option Int)) (n : Nat) : Prop where
  length_eq : table.length = n
  isSome : ∀ entry ∈ table, entry.isSome = true
  image_eq : ∀ i : Int, 0 ≤ i → i < n → Renumbering.image table i = some i

namespace Trivial

variable {table : List (Option Int)} {n : Nat}

theorem filterMap_eq_self (h : Trivial table n) {ids : List Int}
    (hids : ∀ i ∈ ids, 0 ≤ i ∧ i < n) : ids.filterMap (Renumbering.image table) = ids :=
  calc ids.filterMap (Renumbering.image table)
      = ids.filterMap some :=
        List.filterMap_congr fun i hi => h.image_eq i (hids i hi).1 (hids i hi).2
    _ = ids := List.filterMap_some

theorem map_renumbered_eq_self (h : Trivial table n) {slots : List Slot}
    (hslots : ∀ s ∈ slots, s.InRange n) : slots.map (Slot.renumbered table) = slots := by
  refine (List.map_congr_left fun s hs => ?_).trans (List.map_id _)
  have hids : s.ids.map (fun ids => ids.filterMap (Renumbering.image table)) = s.ids :=
    Slot.map_ids_eq_self fun p => h.filterMap_eq_self (hslots s hs p)
  rw [Slot.renumbered, hids]
  rfl

theorem renumbered_eq_self {c : Circuit} (h : Trivial table c.units.length)
    (hslots : c.SlotsInRange) (hwires : c.WiresInRange) : c.renumbered table c.bounds = c := by
  have hunits : c.units.map (renumberedUnit table) = c.units := by
    refine (List.map_congr_left fun e he => ?_).trans (List.map_id _)
    rw [renumberedUnit, h.filterMap_eq_self (hwires e he)]
    rfl
  have hkept : keptUnits table c.units = c.units := by
    have hfilter : (c.units.zip table).filter (fun u => u.2.isSome) = c.units.zip table :=
      List.filter_eq_self.2 fun u hu => h.isSome u.2 (List.of_mem_zip hu).2
    have hlength := h.length_eq
    rw [keptUnits, hfilter, List.map_fst_zip (by omega)]
  have hin : c.inputs.map (Slot.renumbered table) = c.inputs :=
    h.map_renumbered_eq_self (hslots .input)
  have hout : c.outputs.map (Slot.renumbered table) = c.outputs :=
    h.map_renumbered_eq_self (hslots .output)
  rw [renumbered, hunits, hkept, hin, hout]

end Trivial

/-- Flags all of which are set. -/
theorem eq_replicate_of_count {flags : List Bool} (h : flags.count false = 0) :
    flags = List.replicate flags.length true := by
  refine List.eq_replicate_iff.2 ⟨rfl, fun flag hflag => ?_⟩
  cases flag with
  | true => rfl
  | false => exact absurd hflag (List.count_eq_zero.1 h)

/-- If every unit is marked, every unit keeps its number. -/
theorem trivial_keep {flags : List Bool} (h : flags.count false = 0) :
    Trivial (Renumbering.keep flags) flags.length := by
  rw [eq_replicate_of_count h, List.length_replicate]
  generalize flags.length = n
  refine ⟨by simp [Renumbering.keep], ?_, ?_⟩
  · intro entry hentry
    obtain ⟨i, hi⟩ := List.mem_iff_getElem?.1 hentry
    rw [Renumbering.keep, Renumbering.getElem?_keepFrom] at hi
    obtain ⟨flag, hflag, rfl⟩ := Option.map_eq_some_iff.1 hi
    obtain rfl := List.eq_of_mem_replicate (List.mem_of_getElem? hflag)
    rfl
  · intro i h0 hi
    have hflag : (List.replicate n true)[i.toNat]? = some true :=
      List.getElem?_replicate_of_lt (by omega)
    have hrank : Renumbering.rank (List.replicate n true) i.toNat = i.toNat := by
      rw [Renumbering.rank, List.take_replicate, List.count_replicate_self]
      omega
    rw [Renumbering.numbers_keep, if_pos hflag, hrank]
    exact congrArg some (by omega)

theorem trivial_keepInPlace {flags : List Bool} (h : flags.count false = 0) :
    Trivial (Renumbering.keepInPlace flags) flags.length := by
  rw [eq_replicate_of_count h, List.length_replicate]
  generalize flags.length = n
  refine ⟨by simp, ?_, ?_⟩
  · intro entry hentry
    obtain ⟨u, hu, rfl⟩ := List.mem_map.1 hentry
    have hflag := List.eq_of_mem_replicate
      (List.mem_of_getElem? (List.mem_zipIdx_iff_getElem?.1 hu))
    rw [hflag]
    rfl
  · intro i h0 hi
    have hflag : (List.replicate n true)[i.toNat]? = some true :=
      List.getElem?_replicate_of_lt (by omega)
    rw [Renumbering.numbers_keepInPlace, if_pos hflag]
    exact congrArg some (by simp only [id_eq]; omega)

/-! ### Keeping marked units, and putting others in the place of the rest -/

/-- **The marked units of a circuit can be kept.** -/
theorem keepUnits_eq_ok {flags : List Bool} {c : Circuit} (hlength : flags.length = c.units.length)
    (hslots : c.SlotsInRange) (hwires : c.WiresInRange)
    (hbox : ∃ box, boundingBox c.units = .ok box) :
    ∃ bounds, keepUnits flags c
      = .ok (flags.count false) (c.renumbered (Renumbering.keep flags) bounds) := by
  by_cases hcount : flags.count false = 0
  · have htrivial := trivial_keep hcount
    rw [hlength] at htrivial
    refine ⟨c.bounds, ?_⟩
    rw [htrivial.renumbered_eq_self hslots hwires, keepUnits]
    simp only [hcount, if_true]
    rfl
  · have htable : (Renumbering.keep flags).length = c.units.length := by
      rw [Renumbering.keep, Renumbering.length_keepFrom, hlength]
    obtain ⟨bounds, happly⟩ := applyTable_eq_ok htable hslots hwires hbox
    refine ⟨bounds, ?_⟩
    rw [keepUnits]
    simp only [if_neg hcount]
    exact Loop.bind_of_ok happly

/-- A circuit in which a placeholder stands for every unit that is not marked. -/
def replaced (flags : List Bool) (placeholder : Device) (c : Circuit) (bounds : Point) :
    Circuit where
  units := (c.units.zip flags).map fun u =>
    if u.2 then { u.1 with wires := u.1.wires.filter fun w => !isUnused flags w }
    else standIn placeholder u.1
  inputs := c.inputs.map (Slot.renumbered (Renumbering.keepInPlace flags))
  outputs := c.outputs.map (Slot.renumbered (Renumbering.keepInPlace flags))
  bounds := bounds

/-- The units keep their places, so they have a bounding box if the placeholder is not too large. -/
theorem boundingBox_replaced {flags : List Bool} {placeholder : Device} {c : Circuit}
    (hplaceholder : Element.Reachable placeholder.part.size)
    (hbox : ∃ box, boundingBox c.units = .ok box) :
    ∃ box, boundingBox (c.replaced flags placeholder .origin).units = .ok box := by
  rw [boundingBox_isOk_iff] at hbox ⊢
  intro e he
  obtain ⟨⟨u, flag⟩, hu, rfl⟩ := List.mem_map.1 he
  cases flag with
  | true => exact hbox u (List.of_mem_zip hu).1
  | false => exact Element.corners_isOk hplaceholder

/-- Replacing goes as far as to the size of the bounding box, which is determined last. -/
theorem replaceUnused_eq {flags : List Bool} {c : Circuit} (placeholder : Device)
    (hflags : c.usedFlags = .ok flags) (hlength : flags.length = c.units.length)
    (hslots : c.SlotsInRange) :
    replaceUnused placeholder c = (do refreshBounds; pure (flags.count false) : CircuitM Nat)
      (c.replaced flags placeholder c.bounds) := by
  have hanswer : answer c.usedFlags c = .ok flags c := by rw [hflags]; rfl
  show (answer c.usedFlags >>= _) c = _
  refine (Loop.bind_of_ok hanswer).trans ?_
  refine Loop.modify_bind.trans ?_
  split
  · -- no unit is replaced, and no slot is touched
    rename_i hcount
    have htrivial := trivial_keepInPlace hcount
    rw [hlength] at htrivial
    have hin : c.inputs.map (Slot.renumbered (Renumbering.keepInPlace flags)) = c.inputs :=
      htrivial.map_renumbered_eq_self (hslots .input)
    have hout : c.outputs.map (Slot.renumbered (Renumbering.keepInPlace flags)) = c.outputs :=
      htrivial.map_renumbered_eq_self (hslots .output)
    simp only [replaced, hin, hout]
  · refine (Loop.bind_of_ok (remapSlots_eq_ok fun side s hs => ?_)).trans rfl
    rw [Renumbering.length_keepInPlace, hlength]
    cases side
    · exact hslots .input s hs
    · exact hslots .output s hs

/-- **Units that are not used can be replaced.** -/
theorem replaceUnused_eq_ok {flags : List Bool} {placeholder : Device} {c : Circuit}
    (hflags : c.usedFlags = .ok flags) (hlength : flags.length = c.units.length)
    (hslots : c.SlotsInRange) (hplaceholder : Element.Reachable placeholder.part.size)
    (hbox : ∃ box, boundingBox c.units = .ok box) :
    ∃ bounds, replaceUnused placeholder c
      = .ok (flags.count false) (c.replaced flags placeholder bounds) := by
  obtain ⟨box, hbox⟩ : ∃ box, boundingBox (c.replaced flags placeholder .origin).units = .ok box :=
    boundingBox_replaced hplaceholder hbox
  refine ⟨box.2, ?_⟩
  rw [replaceUnused_eq placeholder hflags hlength hslots]
  exact Loop.bind_of_ok (refreshBounds_eq_ok hbox)

end Circuit

end Breadboard
