import Breadboard.Proofs.Circuit.Reaching

/-!
**Placeholders for units that are not used.**

Units that are not used are replaced in place: each gives way to an inert part that keeps its place,
its turn and its colour, and every reference to it is dropped.  The units that are used keep all
that they are, and their connections to each other.  So what was used is used afterwards, nothing
else is, and replacing again finds the same units and changes nothing.

Main definitions:

* `Renumbering.leadsTo` — a reference is to a marked unit;
* `Circuit.ReplacedBy` — what a circuit becomes when the units without a mark give way.

Main results:

* `Circuit.replacedBy_replaced` — what is computed is what a circuit becomes;
* `Circuit.ReplacedBy.unique`, `Circuit.ReplacedBy.again` — it becomes one circuit only, and that
  becomes itself;
* `Circuit.ReplacedBy.matters_iff` — **what was used is used afterwards, and nothing else is**;
* `Circuit.replaceUnused_inert` — **replacing is inert and idempotent**.
-/

set_option autoImplicit false
set_option relaxedAutoImplicit false

namespace Breadboard

namespace Renumbering

/-! ### References to marked units -/

/-- The reference is to a marked unit. -/
def leadsTo (flags : List Bool) (i : Int) : Bool := flags[i.toNat]? == some true

theorem leadsTo_iff {flags : List Bool} {i : Int} :
    leadsTo flags i = true ↔ flags[i.toNat]? = some true := beq_iff_eq

/-- A table that keeps the marked units in place keeps the references to them. -/
theorem filterMap_image_keepInPlace {flags : List Bool} {ids : List Int}
    (hids : ∀ i ∈ ids, 0 ≤ i) :
    ids.filterMap (image (keepInPlace flags)) = ids.filter (leadsTo flags) := by
  rw [← List.filterMap_eq_filter]
  refine List.filterMap_congr fun i hi => ?_
  rw [numbers_keepInPlace flags i, id_eq, Int.toNat_of_nonneg (hids i hi)]
  by_cases hflag : flags[i.toNat]? = some true
  · simp [hflag, leadsTo, Option.guard]
  · simp [hflag, leadsTo, Option.guard]

end Renumbering

/-- Flags of one length with the same marks are the same. -/
theorem Renumbering.flags_eq {flags flags' : List Bool} (hlength : flags.length = flags'.length)
    (h : ∀ i : Nat, flags[i]? = some true ↔ flags'[i]? = some true) : flags = flags' := by
  refine List.ext_getElem hlength fun i hi hi' => ?_
  have hmark := h i
  rw [List.getElem?_eq_getElem hi, List.getElem?_eq_getElem hi', Option.some_inj,
    Option.some_inj] at hmark
  exact Bool.eq_iff_iff.2 hmark

namespace Circuit

/-- A reference in range is not to an unused unit exactly if it is to a used one. -/
theorem not_isUnused_eq_leadsTo {flags : List Bool} {w : Int} (h0 : 0 ≤ w)
    (hlt : w < flags.length) : (!isUnused flags w) = Renumbering.leadsTo flags w := by
  refine Bool.eq_iff_iff.2 ⟨fun h => ?_, fun h => ?_⟩
  · exact Renumbering.leadsTo_iff.2 (flag_of_not_isUnused h0 hlt h)
  · rw [isUnused, Renumbering.leadsTo_iff.1 h]
    simp

/-! ### What a circuit becomes -/

/-- What a circuit becomes when the units without a mark give way to a placeholder: marked units
keep all but their connections to the others, the others get the part and, if they had none, the
colour of the placeholder and send nothing, and the slots keep what leads to marked units. -/
structure ReplacedBy (placeholder : Device) (flags : List Bool) (c d : Circuit) : Prop where
  length_eq : d.units.length = c.units.length
  used : ∀ (i : Nat) (e : Element), c.units[i]? = some e → flags[i]? = some true →
    d.units[i]? = some { e with wires := e.wires.filter (Renumbering.leadsTo flags) }
  unused : ∀ (i : Nat) (e : Element), c.units[i]? = some e → flags[i]? = some false →
    d.units[i]? = some { e with
      part := placeholder.part
      wires := []
      color := e.color.or placeholder.color }
  slots : ∀ side, d.slots side = (c.slots side).map fun s =>
    { s with ids := s.ids.map fun ids => ids.filter (Renumbering.leadsTo flags) }
  bounds : (boundingBox d.units).map Prod.snd = .ok d.bounds

/-- What is computed is what a circuit becomes. -/
theorem replacedBy_replaced {placeholder : Device} {flags : List Bool} {c : Circuit}
    {bounds : Point} (hslots : c.SlotsInRange) (hwires : c.WiresInRange)
    (hlength : flags.length = c.units.length)
    (hbounds : (boundingBox (c.replaced flags placeholder bounds).units).map Prod.snd = .ok bounds) :
    ReplacedBy placeholder flags c (c.replaced flags placeholder bounds) where
  length_eq := by rw [replaced, List.length_map, List.length_zip, hlength, Nat.min_self]
  used i e he hflag := by
    have hzip : (c.units.zip flags)[i]? = some (e, true) := List.getElem?_zip_eq_some.2 ⟨he, hflag⟩
    have hfilter : e.wires.filter (fun w => !isUnused flags w)
        = e.wires.filter (Renumbering.leadsTo flags) := by
      refine List.filter_congr fun w hw => ?_
      obtain ⟨h0, hlt⟩ := hwires e (List.mem_of_getElem? he) w hw
      exact not_isUnused_eq_leadsTo h0 (by rw [hlength]; exact hlt)
    rw [replaced, List.getElem?_map, hzip, Option.map_some, ← hfilter]
    rfl
  unused i e he hflag := by
    have hzip : (c.units.zip flags)[i]? = some (e, false) :=
      List.getElem?_zip_eq_some.2 ⟨he, hflag⟩
    rw [replaced, List.getElem?_map, hzip, Option.map_some, Option.or_eq_orElse]
    rfl
  slots side := by
    have hslot : ∀ s ∈ c.slots side, s.renumbered (Renumbering.keepInPlace flags)
        = { s with ids := s.ids.map fun ids => ids.filter (Renumbering.leadsTo flags) } := by
      intro s hs
      have hids : (s.ids.map fun ids => ids.filterMap (Renumbering.image
            (Renumbering.keepInPlace flags)))
          = s.ids.map fun ids => ids.filter (Renumbering.leadsTo flags) :=
        Slot.map_ids_congr fun p =>
          Renumbering.filterMap_image_keepInPlace fun i hi => (hslots side s hs p i hi).1
      rw [Slot.renumbered, hids]
    rw [← List.map_congr_left hslot]
    cases side <;> rfl
  bounds := hbounds

namespace ReplacedBy

variable {placeholder : Device} {flags : List Bool} {c d d' : Circuit}

/-- A unit has a mark or not, and stands at the place of a unit before. -/
theorem cases (hlength : flags.length = c.units.length) (h : ReplacedBy placeholder flags c d)
    {i : Nat} {u : Element} (hu : d.units[i]? = some u) :
    ∃ e, c.units[i]? = some e
      ∧ (flags[i]? = some true
          ∧ u = { e with wires := e.wires.filter (Renumbering.leadsTo flags) }
        ∨ flags[i]? = some false
          ∧ u = { e with
              part := placeholder.part
              wires := []
              color := e.color.or placeholder.color }) := by
  have hi : i < c.units.length := by
    rw [← h.length_eq]
    exact (List.getElem?_eq_some_iff.1 hu).1
  have he := List.getElem?_eq_getElem hi
  obtain ⟨flag, hflag⟩ : ∃ flag, flags[i]? = some flag :=
    ⟨_, List.getElem?_eq_getElem (hlength ▸ hi)⟩
  refine ⟨_, he, ?_⟩
  cases flag with
  | true => exact .inl ⟨hflag, Option.some.inj (hu.symm.trans (h.used i _ he hflag))⟩
  | false => exact .inr ⟨hflag, Option.some.inj (hu.symm.trans (h.unused i _ he hflag))⟩

/-- **A circuit becomes one circuit only.** -/
theorem unique (hlength : flags.length = c.units.length) (h : ReplacedBy placeholder flags c d)
    (h' : ReplacedBy placeholder flags c d') : d = d' := by
  have hunits : d.units = d'.units := by
    refine List.ext_getElem? fun i => ?_
    cases hu : d.units[i]? with
    | none =>
        rw [List.getElem?_eq_none_iff, h.length_eq, ← h'.length_eq] at hu
        exact (List.getElem?_eq_none hu).symm
    | some u =>
        obtain ⟨e, he, ⟨hmark, rfl⟩ | ⟨hmark, rfl⟩⟩ := h.cases hlength hu
        · exact (h'.used i e he hmark).symm
        · exact (h'.unused i e he hmark).symm
  have hin : d.inputs = d'.inputs := (h.slots .input).trans (h'.slots .input).symm
  have hout : d.outputs = d'.outputs := (h.slots .output).trans (h'.slots .output).symm
  have hbounds := h.bounds
  rw [hunits, h'.bounds] at hbounds
  cases d
  cases d'
  simp only [Except.ok.injEq] at hunits hin hout hbounds
  rw [hunits, hin, hout, hbounds]

/-- **What a circuit becomes, that becomes itself.** -/
theorem again (hlength : flags.length = c.units.length) (h : ReplacedBy placeholder flags c d) :
    ReplacedBy placeholder flags d d where
  length_eq := rfl
  used i u hu hmark := by
    obtain ⟨e, _, ⟨_, rfl⟩ | ⟨hother, _⟩⟩ := h.cases hlength hu
    · simp only [hu, List.filter_filter, Bool.and_self]
    · rw [hmark] at hother
      cases hother
  unused i u hu hmark := by
    obtain ⟨e, _, ⟨hother, _⟩ | ⟨_, rfl⟩⟩ := h.cases hlength hu
    · rw [hmark] at hother
      cases hother
    · simp only [hu, Option.or_assoc, Option.or_self]
  slots side := by
    rw [h.slots side, List.map_map]
    refine List.map_congr_left fun s _ => ?_
    have hids : (s.ids.map fun ids => ids.filter (Renumbering.leadsTo flags))
        = (s.ids.map fun ids => ids.filter (Renumbering.leadsTo flags)).map
            fun ids => ids.filter (Renumbering.leadsTo flags) := by
      simp only [Dense.map_map, Function.comp_def, List.filter_filter, Bool.and_self]
    exact congrArg (fun ids => ({ s with ids := ids } : Slot)) hids
  bounds := h.bounds

/-- Connections lead to marked units only. -/
theorem wires_leadTo (hlength : flags.length = c.units.length)
    (h : ReplacedBy placeholder flags c d) {e : Element} (he : e ∈ d.units) {w : Int}
    (hw : w ∈ e.wires) : flags[w.toNat]? = some true := by
  obtain ⟨i, hi⟩ := List.mem_iff_getElem?.1 he
  obtain ⟨u, _, ⟨_, rfl⟩ | ⟨_, rfl⟩⟩ := h.cases hlength hi
  · exact Renumbering.leadsTo_iff.1 (List.mem_filter.1 hw).2
  · cases hw

/-- What stands behind a point is what stood there, as far as it is marked. -/
theorem mem_getPoint (h : ReplacedBy placeholder flags c d) (side : Side) {s : Slot}
    (hs : s ∈ d.slots side) : ∃ t ∈ c.slots side, ∀ p i, i ∈ s.getPoint p ↔
      i ∈ t.getPoint p ∧ flags[i.toNat]? = some true := by
  rw [h.slots side] at hs
  obtain ⟨t, ht, rfl⟩ := List.mem_map.1 hs
  refine ⟨t, ht, fun p i => ?_⟩
  rw [t.getPoint_map_ids p rfl, List.mem_filter, Renumbering.leadsTo_iff]

/-- Slots lead to marked units only. -/
theorem slots_leadTo (h : ReplacedBy placeholder flags c d) {side : Side} {s : Slot}
    (hs : s ∈ d.slots side) : s.All fun i => flags[i.toNat]? = some true := by
  obtain ⟨t, _, hpoint⟩ := h.mem_getPoint side hs
  exact fun p i hi => ((hpoint p i).1 hi).2

/-- A slot that leads to marked units only stays as it is. -/
theorem slot_eq {s : Slot} (hs : ∀ p, ∀ i ∈ s.getPoint p, flags[i.toNat]? = some true) :
    ({ s with ids := s.ids.map fun ids => ids.filter (Renumbering.leadsTo flags) } : Slot) = s := by
  have hids : (s.ids.map fun ids => ids.filter (Renumbering.leadsTo flags)) = s.ids :=
    Slot.map_ids_eq_self fun p =>
      List.filter_eq_self.2 fun i hi => Renumbering.leadsTo_iff.2 (hs p i hi)
  rw [hids]

/-! ### What is used afterwards -/

/-- A unit sends to those marked units to which it sent before, if it is marked. -/
theorem sends_iff (hlength : flags.length = c.units.length)
    (h : ReplacedBy placeholder flags c d) {i j : Nat} :
    d.Sends i j ↔ c.Sends i j ∧ flags[i]? = some true ∧ flags[j]? = some true := by
  constructor
  · rintro ⟨u, hu, hmem⟩
    obtain ⟨e, he, ⟨hmark, rfl⟩ | ⟨_, rfl⟩⟩ := h.cases hlength hu
    · obtain ⟨hmem, hlead⟩ := List.mem_filter.1 hmem
      exact ⟨⟨e, he, hmem⟩, hmark, Renumbering.leadsTo_iff.1 hlead⟩
    · cases hmem
  · rintro ⟨⟨e, he, hmem⟩, hmark, hlead⟩
    exact ⟨_, h.used i e he hmark, List.mem_filter.2 ⟨hmem, Renumbering.leadsTo_iff.2 hlead⟩⟩

/-- What is demanded was demanded before, and demanded units that are marked stay so. -/
theorem demanded_iff (hlength : flags.length = c.units.length)
    (hflags : ∀ i : Nat, c.Demanded i → flags[i]? = some true)
    (h : ReplacedBy placeholder flags c d) {i : Nat} : d.Demanded i ↔ c.Demanded i := by
  have hout : d.outputs = c.outputs.map _ := h.slots .output
  constructor
  · rintro ⟨u, hu, hcause⟩
    obtain ⟨e, he, hsame⟩ := h.cases hlength hu
    have hpinned : u.pinned = e.pinned := by
      rcases hsame with ⟨_, rfl⟩ | ⟨_, rfl⟩ <;> rfl
    refine ⟨e, he, hcause.imp (fun hpin => hpinned ▸ hpin) ?_⟩
    rintro ⟨s, hs, p, hmem⟩
    obtain ⟨t, ht, hpoint⟩ := h.mem_getPoint .output hs
    exact ⟨t, ht, p, ((hpoint p i).1 hmem).1⟩
  · intro hi
    have hmark := hflags i hi
    obtain ⟨e, he, hcause⟩ := hi
    refine ⟨_, h.used i e he hmark, hcause.imp id ?_⟩
    rintro ⟨s, hs, p, hmem⟩
    refine ⟨_, hout ▸ List.mem_map_of_mem hs, p, ?_⟩
    rw [s.getPoint_map_ids p rfl]
    exact List.mem_filter.2 ⟨hmem, Renumbering.leadsTo_iff.2 hmark⟩

/-- **What was used is used afterwards, and nothing else is.** -/
theorem matters_iff (hlength : flags.length = c.units.length)
    (hflags : ∀ i : Nat, flags[i]? = some true ↔ c.Matters i)
    (h : ReplacedBy placeholder flags c d) {i : Nat} : d.Matters i ↔ c.Matters i := by
  have hdemanded (k : Nat) : d.Demanded k ↔ c.Demanded k :=
    h.demanded_iff hlength fun j hj => (hflags j).2 ⟨j, .refl, hj⟩
  constructor
  · rintro ⟨j, hpath, hj⟩
    have hkept (a b : Nat) (hsends : d.Sends a b) : c.Sends a b :=
      ((h.sends_iff hlength).1 hsends).1
    exact ⟨j, Relation.ReflTransGen.mono hkept _ _ hpath, (hdemanded j).1 hj⟩
  · rintro ⟨j, hpath, hj⟩
    induction hpath using Relation.ReflTransGen.head_induction_on with
    | refl => exact ⟨j, .refl, (hdemanded j).2 hj⟩
    | @head first next hsends hrest ih =>
        -- all units on the way matter, so their connections are kept
        have hnext : c.Matters next := ⟨j, hrest, hj⟩
        have hfirst : c.Matters first := hnext.of_sends hsends
        exact ih.of_sends
          ((h.sends_iff hlength).2 ⟨hsends, (hflags _).2 hfirst, (hflags _).2 hnext⟩)

end ReplacedBy

/-- Replacing what is not used succeeds for a closed circuit, and what it becomes is closed. -/
theorem Closed.exists_replaceUnused {c : Circuit} (hc : c.Closed) {placeholder : Device}
    (hsize : Element.Reachable placeholder.part.size) {flags : List Bool}
    (hflags : c.usedFlags = .ok flags) (hlength : flags.length = c.units.length) :
    ∃ d, replaceUnused placeholder c = .ok (flags.count false) d
      ∧ ReplacedBy placeholder flags c d ∧ d.Closed := by
  obtain ⟨bounds, hreplaced⟩ :=
    replaceUnused_eq_ok hflags hlength hc.slots hsize hc.exists_boundingBox
  have hclosed := closed_replaceUnused hc hsize
  rw [final_of_ok hreplaced] at hclosed
  exact ⟨_, hreplaced, replacedBy_replaced hc.slots hc.wires hlength hclosed.bounds, hclosed⟩

/-- **Replacing what is not used is inert and idempotent.**  In a closed circuit the search marks
the units that are used.  Replacing the others by a placeholder whose extents reach no further than
a word succeeds, and the answer is their number.  In the result, which is as described by
`ReplacedBy` and closed, no connection and no slot leads to a replaced unit, and the output slots
are as before.  The search marks the same units in the result, which are those that matter there, so
that replacing again gives the same answer and changes nothing. -/
theorem replaceUnused_inert {c : Circuit} (hc : c.Closed) {placeholder : Device}
    (hsize : Element.Reachable placeholder.part.size) :
    ∃ flags, c.usedFlags = .ok flags ∧ flags.length = c.units.length
      ∧ (∀ i : Nat, flags[i]? = some true ↔ c.Matters i)
      ∧ ∃ d, replaceUnused placeholder c = .ok (flags.count false) d
        ∧ ReplacedBy placeholder flags c d ∧ d.Closed
        ∧ (∀ e ∈ d.units, ∀ w ∈ e.wires, flags[w.toNat]? = some true)
        ∧ (∀ side, ∀ s ∈ d.slots side, s.All fun i => flags[i.toNat]? = some true)
        ∧ d.outputs = c.outputs
        ∧ d.usedFlags = .ok flags
        ∧ (∀ i, d.Matters i ↔ c.Matters i)
        ∧ replaceUnused placeholder d = .ok (flags.count false) d := by
  obtain ⟨flags, hflags, huses, _, hmatters⟩ := exists_usedFlags hc.slots hc.wires
  have hlength := huses.length_eq
  obtain ⟨d, hreplaced, hd, hclosed⟩ := hc.exists_replaceUnused hsize hflags hlength
  have hlength' : flags.length = d.units.length := hlength.trans hd.length_eq.symm
  -- the search in the result ends with the marks of the first one
  obtain ⟨flags', hflags', huses', _, hmatters'⟩ := exists_usedFlags hclosed.slots hclosed.wires
  have hsame : flags' = flags :=
    Renumbering.flags_eq (huses'.length_eq.trans hlength'.symm) fun i =>
      (hmatters' i).trans ((hd.matters_iff hlength hmatters).trans (hmatters i).symm)
  rw [hsame] at hflags'
  -- what the result becomes is the result itself
  obtain ⟨d', hreplaced', hd', _⟩ := hclosed.exists_replaceUnused hsize hflags' hlength'
  obtain rfl := hd'.unique hlength' (hd.again hlength)
  refine ⟨flags, hflags, hlength, hmatters, d', hreplaced, hd, hclosed,
    fun e he w hw => hd.wires_leadTo hlength he hw, fun side s hs => hd.slots_leadTo hs, ?_,
    hflags', fun i => hd.matters_iff hlength hmatters, hreplaced'⟩
  have hout : d'.outputs = c.outputs.map _ := hd.slots .output
  rw [hout]
  exact (List.map_congr_left fun s hs => ReplacedBy.slot_eq (huses.shown s hs)).trans
    (List.map_id' _)

/-- A gate that an output slot addresses, two that only send to each other, and a pinned one; both
of the used ones send to unused ones. -/
def lagoon : Circuit where
  units := [⟨⟨.gate .or, [1, 3, 1, 3], none, false⟩, ⟨0, 0, 0⟩, .identity⟩,
    ⟨⟨.gate .and, [2], some "ff0000", false⟩, ⟨1, 0, 0⟩, .quarterX⟩,
    ⟨⟨.timer 7, [1, 1], none, false⟩, ⟨2, 0, 0⟩, .identity⟩,
    ⟨⟨.gate .xor, [2], none, true⟩, ⟨3, 0, 0⟩, .identity⟩]
  inputs := [⟨"in", "bit", .single [0, 1, 2], []⟩]
  outputs := [⟨"out", "bit", .single [0], []⟩]
  bounds := ⟨4, 1, 2⟩

/-- A lamp to stand in for what is not used. -/
def lamp : Device := ⟨.gate .nor, [], some "00ff00", true⟩

/-- The lagoon with lamps. -/
def lagoonWithLamps : Circuit where
  units := [⟨⟨.gate .or, [3, 3], none, false⟩, ⟨0, 0, 0⟩, .identity⟩,
    ⟨⟨.gate .nor, [], some "ff0000", false⟩, ⟨1, 0, 0⟩, .quarterX⟩,
    ⟨⟨.gate .nor, [], some "00ff00", false⟩, ⟨2, 0, 0⟩, .identity⟩,
    ⟨⟨.gate .xor, [], none, true⟩, ⟨3, 0, 0⟩, .identity⟩]
  inputs := [⟨"in", "bit", .single [0], []⟩]
  outputs := [⟨"out", "bit", .single [0], []⟩]
  bounds := ⟨4, 1, 1⟩

theorem replaceUnused_inert_lagoon :
    lagoon.Closed ∧ Element.Reachable lamp.part.size
      ∧ replaceUnused lamp lagoon = .ok 2 lagoonWithLamps
      ∧ replaceUnused lamp lagoonWithLamps = .ok 2 lagoonWithLamps := by
  have hclosed : lagoon.Closed := by
    refine ⟨fun side s hs => ?_, ?_, fun side => ?_, rfl⟩
    · rw [← Slot.dangling?_eq_none_iff_inRange]
      cases side with
      | input =>
          obtain rfl := List.mem_singleton.1 hs
          decide
      | output =>
          obtain rfl := List.mem_singleton.1 hs
          decide
    · show ∀ e ∈ lagoon.units, ∀ w ∈ e.wires, 0 ≤ w ∧ w < lagoon.units.length
      decide
    · cases side with
      | input => exact List.nodup_singleton _
      | output => exact List.nodup_singleton _
  have hsize : Element.Reachable lamp.part.size := ⟨by decide, by decide, by decide⟩
  have hvalue : replaceUnused lamp lagoon = .ok 2 lagoonWithLamps := rfl
  obtain ⟨flags, _, _, _, d, hreplaced, _, _, _, _, _, _, _, hagain⟩ :=
    replaceUnused_inert hclosed hsize
  rw [hvalue] at hreplaced
  obtain ⟨hcount, rfl⟩ := EStateM.Result.ok.inj hreplaced
  rw [← hcount] at hagain
  exact ⟨hclosed, hsize, hvalue, hagain⟩

end Circuit

end Breadboard
