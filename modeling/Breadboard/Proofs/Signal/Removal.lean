import Breadboard.Proofs.Circuit.Renumbered
import Breadboard.Proofs.Circuit.Used
import Breadboard.Proofs.Signal.Network

/-!
**Removing units that are not used.**

A unit that is not used sends to units only that are not used either, and no output shows it.  So
the used units hear the same whether it is there or not, and with their new numbers they run as they
did before.

Main results:

* `Circuit.senders_keptUnits` — what the kept units hear, by their new numbers;
* `Circuit.embeds_renumbered`, `Circuit.embeds_replaced` — **the used units are held by the circuit
  without the others, and by the one with placeholders for them**;
* `Circuit.removal_keeps_runs` — **removing or replacing what is not used changes no run**.
-/

set_option autoImplicit false
set_option relaxedAutoImplicit false

namespace Breadboard

universe u v

namespace Circuit

/-! ### Units -/

/-- A list for every kept unit, by its rank, is a list for every unit if the others add nothing. -/
theorem flatMap_zipIdx_keptUnits {β : Type} {f g : Element × Nat → List β} (r : Element → Element)
    {flags : List Bool} {next : Int} {units : List Element} {k m : Nat}
    (hlength : flags.length = units.length)
    (hkept : ∀ (i : Nat) (e : Element), units[i]? = some e → flags[i]? = some true →
      g (r e, k + Renumbering.rank flags i) = f (e, m + i))
    (hgone : ∀ (i : Nat) (e : Element), units[i]? = some e → flags[i]? = some false →
      f (e, m + i) = []) :
    ((keptUnits (Renumbering.keepFrom next flags) (units.map r)).zipIdx k).flatMap g
      = (units.zipIdx m).flatMap f := by
  -- `k` counts the kept units before these, `m` all of them
  induction flags generalizing next units k m with
  | nil =>
      obtain rfl := List.length_eq_zero_iff.1 hlength.symm
      rfl
  | cons flag flags ih =>
      cases units with
      | nil => cases hlength
      | cons e rest =>
          have hrest : flags.length = rest.length := by simpa using hlength
          have hgone' : ∀ (i : Nat) (u : Element), rest[i]? = some u → flags[i]? = some false →
              f (u, m + 1 + i) = [] := by
            intro i u hu hflag
            rw [Nat.add_assoc, Nat.add_comm 1 i]
            exact hgone (i + 1) u hu hflag
          rw [List.map_cons, List.zipIdx_cons, List.flatMap_cons]
          cases flag with
          | true =>
              have hfirst : g (r e, k) = f (e, m) := hkept 0 e rfl rfl
              rw [keptUnits_cons_true, List.zipIdx_cons, List.flatMap_cons, hfirst]
              refine congrArg _ (ih hrest ?_ hgone')
              intro i u hu hflag
              have hu := hkept (i + 1) u hu hflag
              rw [Renumbering.rank_cons_succ, if_pos rfl, ← Nat.add_assoc] at hu
              rw [hu, Nat.add_assoc, Nat.add_comm 1 i]
          | false =>
              have hfirst : f (e, m) = [] := hgone 0 e rfl rfl
              rw [keptUnits_cons_false, hfirst, List.nil_append]
              refine ih hrest ?_ hgone'
              intro i u hu hflag
              have hu := hkept (i + 1) u hu hflag
              rw [Renumbering.rank_cons_succ, if_neg Bool.false_ne_true, Nat.zero_add] at hu
              rw [hu, Nat.add_assoc, Nat.add_comm 1 i]

/-- **What the kept units hear**, by their new numbers. -/
theorem senders_keptUnits {c : Circuit} {flags : List Bool} (hwires : c.WiresInRange)
    (hflags : c.Uses flags) {j : Nat} (hj : flags[j]? = some true) :
    senders (keptUnits (Renumbering.keep flags)
        (c.units.map (renumberedUnit (Renumbering.keep flags)))) (Renumbering.rank flags j)
      = (senders c.units j).map (Renumbering.rank flags) := by
  have hcount : ∀ e ∈ c.units,
      (renumberedUnit (Renumbering.keep flags) e).wires.count (Renumbering.rank flags j : Int)
        = e.wires.count (j : Int) := by
    intro e he
    exact Renumbering.count_filterMap_image (Renumbering.numbers_keep flags)
      (fun _ _ => Renumbering.rank_inj) (fun w hw => (hwires e he w hw).1) hj
  rw [senders, senders, List.map_flatMap]
  simp only [List.map_replicate]
  refine flatMap_zipIdx_keptUnits _ hflags.length_eq ?_ ?_
  · intro i e he _
    simp only [Nat.zero_add, hcount e (List.mem_of_getElem? he)]
  · intro i e he hflag
    -- a unit that is not used does not send to one that is
    have hzero : e.wires.count (j : Int) = 0 := by
      refine List.count_eq_zero.2 fun hmem => ?_
      have hi := hflags.spreads i e he _ hmem (by rw [Int.toNat_natCast]; exact hj)
      rw [hi] at hflag
      cases hflag
    simp only [hzero, List.replicate_zero]

/-- Two lists of units that add the same at every place. -/
theorem flatMap_zipIdx_congr {β : Type} {f g : Element × Nat → List β} {units units' : List Element}
    (m : Nat) (hlength : units'.length = units.length)
    (h : ∀ (i : Nat) (e e' : Element), units[i]? = some e → units'[i]? = some e' →
      g (e', m + i) = f (e, m + i)) :
    (units'.zipIdx m).flatMap g = (units.zipIdx m).flatMap f := by
  induction units generalizing units' m with
  | nil => rw [List.length_eq_zero_iff.1 hlength]; rfl
  | cons e rest ih =>
      cases units' with
      | nil => cases hlength
      | cons e' rest' =>
          have hrest : rest'.length = rest.length := by simpa using hlength
          have hfirst : g (e', m) = f (e, m) := h 0 e e' rfl rfl
          rw [List.zipIdx_cons, List.zipIdx_cons, List.flatMap_cons, List.flatMap_cons, hfirst]
          refine congrArg _ (ih (m + 1) hrest fun i u u' hu hu' => ?_)
          rw [Nat.add_assoc, Nat.add_comm 1 i]
          exact h (i + 1) u u' hu hu'

/-- The used units hear the same when the others are replaced. -/
theorem senders_replaced {c : Circuit} {flags : List Bool} {placeholder : Device} {bounds : Point}
    (hflags : c.Uses flags) {j : Nat} (hj : flags[j]? = some true) :
    senders (c.replaced flags placeholder bounds).units j = senders c.units j := by
  refine flatMap_zipIdx_congr 0 (by simp [replaced, hflags.length_eq]) fun i e e' he he' => ?_
  have hcount : e'.wires.count (j : Int) = e.wires.count (j : Int) := by
    rw [replaced, List.getElem?_map, Option.map_eq_some_iff] at he'
    obtain ⟨⟨u, flag⟩, hu, rfl⟩ := he'
    rw [List.getElem?_zip_eq_some] at hu
    obtain ⟨hu, hflag⟩ := hu
    obtain rfl : e = u := Option.some.inj (he.symm.trans hu)
    cases flag with
    | true =>
        have hused : (!isUnused flags (j : Int)) = true := by simp [isUnused, hj]
        exact List.count_filter hused
    | false =>
        -- a unit that is not used does not send to one that is
        refine (List.count_eq_zero.2 fun hmem => ?_).symm
        have hi := hflags.spreads i e he _ hmem (by rw [Int.toNat_natCast]; exact hj)
        rw [hi] at hflag
        cases hflag
  simp only [hcount]

/-! ### Slots -/

section Slots

variable {table : List (Option Int)} {flags : List Bool} {number : Nat → Nat}

/-- The input points that address a kept unit. -/
theorem addresses_renumbered (h : Renumbering.Numbers table flags number)
    (hinj : ∀ i j, flags[i]? = some true → flags[j]? = some true → number i = number j → i = j)
    {slots : List Slot} {n : Nat} (hslots : ∀ s ∈ slots, s.InRange n) {j : Nat}
    (hj : flags[j]? = some true) :
    addresses (slots.map (Slot.renumbered table)) (number j) = addresses slots j := by
  rw [addresses, addresses, List.zipIdx_map, List.flatMap_map]
  refine List.flatMap_congr fun s hs => ?_
  have hmem : s.1 ∈ slots := List.mem_of_getElem? (List.mem_zipIdx_iff_getElem?.1 hs)
  simp only [Prod.map_fst, Prod.map_snd, id_eq, Slot.renumbered]
  rw [Dense.items_map, List.filterMap_map]
  refine List.filterMap_congr fun item hitem => ?_
  have hids : ∀ i ∈ item.2, 0 ≤ i := fun i hi => ((hslots s.1 hmem).of_mem_items hitem hi).1
  simp only [Function.comp_apply, Renumbering.count_filterMap_image h hinj hids hj]

/-- What outputs that show kept units only show. -/
theorem shown_renumbered (h : Renumbering.Numbers table flags number) {slots : List Slot}
    (hslots : ∀ s ∈ slots, ∀ p, ∀ i ∈ s.getPoint p, flags[i.toNat]? = some true) :
    shown (slots.map (Slot.renumbered table))
      = (shown slots).map fun slot => slot.map fun item => (item.1, item.2.map number) := by
  rw [shown, shown, List.map_map, List.map_map]
  refine List.map_congr_left fun s hs => ?_
  simp only [Function.comp_apply, Slot.renumbered]
  rw [Dense.items_map, List.map_map, List.map_map]
  refine List.map_congr_left fun item hitem => ?_
  refine congrArg (Prod.mk item.1) ?_
  refine Renumbering.map_toNat_filterMap_image h fun i hi => hslots s hs item.1 i ?_
  rw [Slot.getPoint_of_mem_items hitem]
  exact hi

/-- A unit that an output shows is behind a point of it. -/
theorem flags_of_mem_shown {slots : List Slot}
    (hslots : ∀ s ∈ slots, ∀ p, ∀ i ∈ s.getPoint p, flags[i.toNat]? = some true) :
    ∀ slot ∈ shown slots, ∀ item ∈ slot, ∀ i ∈ item.2, flags[i]? = some true := by
  intro slot hslot item hitem i hi
  obtain ⟨s, hs, rfl⟩ := List.mem_map.1 hslot
  obtain ⟨point, hpoint, rfl⟩ := List.mem_map.1 hitem
  obtain ⟨k, hk, rfl⟩ := List.mem_map.1 hi
  refine hslots s hs point.1 k ?_
  rw [Slot.getPoint_of_mem_items hpoint]
  exact hk

end Slots

/-! ### The used units inside the results -/

/-- What reaches a used unit is used. -/
theorem Uses.of_mem_senders {c : Circuit} {flags : List Bool} (h : c.Uses flags) {j : Nat}
    (hj : flags[j]? = some true) {i : Nat} (hi : i ∈ senders c.units j) :
    flags[i]? = some true := by
  obtain ⟨e, he, hmem⟩ := mem_senders.1 hi
  exact h.spreads i e he _ hmem (by rw [Int.toNat_natCast]; exact hj)

/-- **The used units are held by the circuit without the others.** -/
theorem embeds_renumbered {c : Circuit} {flags : List Bool} {bounds : Point}
    (hslots : c.SlotsInRange) (hwires : c.WiresInRange) (hflags : c.Uses flags) :
    Embeds (fun i => flags[i]? = some true) (Renumbering.rank flags) c
      (c.renumbered (Renumbering.keep flags) bounds) where
  part i hi := by
    rw [renumbered, Renumbering.keep, getElem?_keptUnits hi, List.getElem?_map, Option.map_map]
    rfl
  kept_of_mem_senders j hj i hi := hflags.of_mem_senders hj hi
  senders j hj := senders_keptUnits hwires hflags hj
  addresses j hj := addresses_renumbered (Renumbering.numbers_keep flags)
    (fun _ _ => Renumbering.rank_inj) (hslots .input) hj
  kept_of_mem_shown := flags_of_mem_shown hflags.shown
  shown := shown_renumbered (Renumbering.numbers_keep flags) hflags.shown

/-- **The used units are held by the circuit with placeholders for the others.** -/
theorem embeds_replaced {c : Circuit} {flags : List Bool} {placeholder : Device} {bounds : Point}
    (hslots : c.SlotsInRange) (hflags : c.Uses flags) :
    Embeds (fun i => flags[i]? = some true) id c (c.replaced flags placeholder bounds) where
  part i hi := by
    have hlt : i < c.units.length := by
      rw [← hflags.length_eq]
      exact (List.getElem?_eq_some_iff.1 hi).1
    have hzip : (c.units.zip flags)[i]? = some (c.units[i], true) :=
      List.getElem?_zip_eq_some.2 ⟨List.getElem?_eq_getElem hlt, hi⟩
    rw [replaced, id_eq, List.getElem?_map, hzip, List.getElem?_eq_getElem hlt]
    rfl
  kept_of_mem_senders j hj i hi := hflags.of_mem_senders hj hi
  senders j hj := (senders_replaced hflags hj).trans (List.map_id _).symm
  addresses j hj := addresses_renumbered (Renumbering.numbers_keepInPlace flags)
    (fun _ _ _ _ h => h) (hslots .input) hj
  kept_of_mem_shown := flags_of_mem_shown hflags.shown
  shown := shown_renumbered (Renumbering.numbers_keepInPlace flags) hflags.shown

/-! ### Runs -/

/-- **Removing or replacing what is not used changes no run.**  Both calls succeed on a circuit
whose slots and connections are in range and which has a bounding box, the second one for every
placeholder that is not too large.  The used units stay, and for every rule, all values from outside
and all first states they run as before, under their new numbers; the outputs read the same. -/
theorem removal_keeps_runs {c : Circuit} (hslots : c.SlotsInRange) (hwires : c.WiresInRange)
    (hbox : ∃ box, boundingBox c.units = .ok box) :
    ∃ flags, c.usedFlags = .ok flags ∧ flags.length = c.units.length
      ∧ (∃ c', removeUnused c = .ok (flags.count false) c' ∧ c'.units.length = flags.count true
        ∧ (∀ (i : Nat) (e : Element), c.units[i]? = some e → flags[i]? = some true →
            ∃ wires, c'.units[Renumbering.rank flags i]? = some { e with wires := wires })
        ∧ ∀ {σ : Type u} {ν : Type v} (rule : Rule σ ν) (values : Nat → Nat → Point → ν)
            (init init' : Nat → σ),
          (∀ i : Nat, flags[i]? = some true → init' (Renumbering.rank flags i) = init i) →
          ∀ t, (∀ i : Nat, flags[i]? = some true →
              run rule c' values init' t (Renumbering.rank flags i) = run rule c values init t i)
            ∧ readings c' (run rule c' values init' t) = readings c (run rule c values init t))
      ∧ ∀ placeholder : Device, Element.Reachable placeholder.part.size →
        ∃ c', replaceUnused placeholder c = .ok (flags.count false) c'
          ∧ c'.units.length = c.units.length
          ∧ (∀ (i : Nat) (e : Element), c.units[i]? = some e → flags[i]? = some true →
              ∃ wires, c'.units[i]? = some { e with wires := wires })
          ∧ ∀ {σ : Type u} {ν : Type v} (rule : Rule σ ν) (values : Nat → Nat → Point → ν)
              (init init' : Nat → σ), (∀ i : Nat, flags[i]? = some true → init' i = init i) →
            ∀ t, (∀ i : Nat, flags[i]? = some true →
                run rule c' values init' t i = run rule c values init t i)
              ∧ readings c' (run rule c' values init' t)
                = readings c (run rule c values init t) := by
  obtain ⟨flags, hused, hflags⟩ := usedFlags_eq_ok hslots hwires
  refine ⟨flags, hused, hflags.length_eq, ?_, ?_⟩
  · obtain ⟨bounds, hkeep⟩ := keepUnits_eq_ok hflags.length_eq hslots hwires hbox
    have hembeds : Embeds (fun i => flags[i]? = some true) (Renumbering.rank flags) c
        (c.renumbered (Renumbering.keep flags) bounds) := embeds_renumbered hslots hwires hflags
    have hanswer : answer c.usedFlags c = .ok flags c := by rw [hused]; rfl
    refine ⟨_, (Loop.bind_of_ok hanswer).trans hkeep, ?_, ?_, ?_⟩
    · exact length_keptUnits (by rw [List.length_map, hflags.length_eq])
    · intro i e he hi
      refine ⟨e.wires.filterMap (Renumbering.image (Renumbering.keep flags)), ?_⟩
      rw [renumbered, Renumbering.keep, getElem?_keptUnits hi, List.getElem?_map, he]
      rfl
    · intro σ ν rule values init init' hinit t
      have hrun := hembeds.run_eq rule values hinit t
      exact ⟨hrun, hembeds.readings_eq hrun⟩
  · intro placeholder hplaceholder
    obtain ⟨bounds, hreplace⟩ :=
      replaceUnused_eq_ok hused hflags.length_eq hslots hplaceholder hbox
    have hembeds : Embeds (fun i => flags[i]? = some true) id c
        (c.replaced flags placeholder bounds) := embeds_replaced hslots hflags
    refine ⟨_, hreplace, by simp [replaced, hflags.length_eq], ?_, ?_⟩
    · intro i e he hi
      refine ⟨e.wires.filter fun w => !isUnused flags w, ?_⟩
      have hzip : (c.units.zip flags)[i]? = some (e, true) := List.getElem?_zip_eq_some.2 ⟨he, hi⟩
      rw [replaced, List.getElem?_map, hzip]
      rfl
    · intro σ ν rule values init init' hinit t
      have hrun := hembeds.run_eq rule values hinit t
      exact ⟨hrun, hembeds.readings_eq hrun⟩

/-- Two used gates among two that only send to each other. -/
def tangle : Circuit where
  units := [⟨⟨.gate .or, [2], none, false⟩, ⟨0, 0, 0⟩, .identity⟩,
    ⟨⟨.gate .or, [3, 3], none, false⟩, ⟨1, 0, 0⟩, .identity⟩,
    ⟨⟨.timer 7, [0, 2], none, false⟩, ⟨2, 0, 0⟩, .identity⟩,
    ⟨⟨.gate .xor, [3], none, false⟩, ⟨3, 0, 0⟩, .identity⟩]
  inputs := [⟨"_", "bit", .single [0, 1], []⟩]
  outputs := [⟨"_", "bit", .single [3, 3], []⟩]
  bounds := ⟨4, 1, 2⟩

/-- The used gates of the tangle run alone as they did. -/
theorem removal_keeps_runs_tangle :
    tangle.SlotsInRange ∧ tangle.WiresInRange ∧ (∃ box, boundingBox tangle.units = .ok box)
      ∧ ∃ c', removeUnused tangle = .ok 2 c' ∧ c'.units.length = 2
        ∧ ∀ (rule : Rule Bool Bool) values t, run rule c' values (fun _ => false) t 1
          = run rule tangle values (fun _ => false) t 3 := by
  have hslots : tangle.SlotsInRange := by
    intro side s hs
    rw [← Slot.dangling?_eq_none_iff_inRange]
    cases side <;> (obtain rfl := List.mem_singleton.1 hs; decide)
  have hwires : tangle.WiresInRange := by
    show ∀ e ∈ tangle.units, ∀ w ∈ e.wires, 0 ≤ w ∧ w < tangle.units.length
    decide
  have hbox : ∃ box, boundingBox tangle.units = .ok box := ⟨_, rfl⟩
  obtain ⟨flags, hflags, _, ⟨c', hremove, hlength, _, hrun⟩, _⟩ :=
    removal_keeps_runs hslots hwires hbox
  obtain rfl : [false, true, false, true] = flags := Except.ok.inj hflags
  refine ⟨hslots, hwires, hbox, c', hremove, hlength, fun rule values t => ?_⟩
  exact (hrun rule values (fun _ => false) (fun _ => false) (fun _ _ => rfl) t).1 3 rfl

end Circuit

end Breadboard
