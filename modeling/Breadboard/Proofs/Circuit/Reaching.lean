import Breadboard.Proofs.Circuit.Induced
import Mathlib.Logic.Relation

/-!
**Used units are those from which something demanded is reached.**

A unit is demanded if it is pinned or an output slot addresses it.  The search for used units marks
the demanded ones first and then goes through all units in rounds, in which it sees the marks that
it has just made.  It ends, and then it has marked exactly the units from which connections lead to
a demanded one.  So nothing is left to remove once the others are removed.

Main definitions:

* `Circuit.Settles` — flags to which the rounds lead, however many these are;
* `Circuit.Sends`, `Circuit.Demanded` — who sends to whom, and what is demanded;
* `Circuit.Matters` — connections lead from the unit to a demanded one.

Main results:

* `Circuit.settles_of_settle` — the rounds end before they run out;
* `Circuit.Settles.matters` — only units that matter are marked;
* `Circuit.Uses.getElem?_of_matters` — all units that matter are marked;
* `Circuit.InducedBy.matters` — units that matter do so among the used ones as well;
* `Circuit.removeUnused_complete` — **used means reaching something demanded, and one removal is
  enough**.
-/

set_option autoImplicit false
set_option relaxedAutoImplicit false

namespace Breadboard

/-- Every number below that of the marked units is the rank of one of them. -/
theorem Renumbering.exists_rank_eq {flags : List Bool} {k : Nat} (h : k < flags.count true) :
    ∃ i : Nat, flags[i]? = some true ∧ rank flags i = k := by
  induction flags generalizing k with
  | nil => cases h
  | cons flag flags ih =>
      cases flag with
      | true =>
          rw [List.count_cons_self] at h
          cases k with
          | zero => exact ⟨0, rfl, rank_zero _⟩
          | succ k =>
              obtain ⟨i, hi, hrank⟩ := ih (k := k) (by omega)
              refine ⟨i + 1, hi, ?_⟩
              rw [rank_cons_succ, hrank, if_pos rfl, Nat.add_comm]
      | false =>
          rw [List.count_cons_of_ne Bool.false_ne_true] at h
          obtain ⟨i, hi, hrank⟩ := ih h
          refine ⟨i + 1, hi, ?_⟩
          rw [rank_cons_succ, hrank, if_neg Bool.false_ne_true, Nat.zero_add]

namespace Circuit

/-! ### The rounds -/

/-- Rounds lead from flags to flags that one round more leaves as they are. -/
inductive Settles (units : List Element) : List Bool → List Bool → Prop where
  | done {flags : List Bool} (same : spread units flags = .ok flags) : Settles units flags flags
  | round {flags next last : List Bool} (spreads : spread units flags = .ok next)
      (changed : next ≠ flags) (later : Settles units next last) : Settles units flags last

/-- **The rounds end before they run out**: every round but the last marks a unit. -/
theorem settles_of_settle {units : List Element} {rounds : Nat} {flags last : List Bool}
    (hwires : ∀ e ∈ units, ∀ w ∈ e.wires, 0 ≤ w ∧ w < units.length)
    (hlength : flags.length = units.length) (hrounds : units.length < flags.count true + rounds)
    (h : settle units rounds flags = .ok last) : Settles units flags last := by
  induction rounds generalizing flags with
  | zero =>
      have hcount : flags.count true ≤ flags.length := List.count_le_length
      omega
  | succ rounds ih =>
      have hspread := spread_eq hwires hlength
      rw [settle, hspread, Fault.ok_bind] at h
      rcases round_cases units.zipIdx flags with ⟨hsame, _⟩ | hlt
      · rw [if_pos hsame] at h
        cases h
        rw [hsame] at hspread
        exact .done hspread
      · have hne : Circuit.round units.zipIdx flags ≠ flags := by
          intro e
          rw [e] at hlt
          omega
        rw [if_neg hne] at h
        have hlength' : (Circuit.round units.zipIdx flags).length = units.length := by
          rw [length_round, hlength]
        exact .round hspread hne (ih hlength' (by omega) h)

/-! ### What is reached -/

section Matters

variable {c : Circuit}

/-- A unit sends to another. -/
def Sends (c : Circuit) (i j : Nat) : Prop := ∃ e, c.units[i]? = some e ∧ (j : Int) ∈ e.wires

/-- A unit is pinned, or an output slot addresses it. -/
def Demanded (c : Circuit) (i : Nat) : Prop :=
  ∃ e, c.units[i]? = some e
    ∧ (e.pinned = true ∨ ∃ s ∈ c.outputs, ∃ p, (i : Int) ∈ s.getPoint p)

/-- Connections lead from a unit to a demanded one, which may be the unit itself. -/
def Matters (c : Circuit) (i : Nat) : Prop :=
  ∃ j, Relation.ReflTransGen c.Sends i j ∧ c.Demanded j

/-- A unit that sends to one that matters does matter. -/
theorem Matters.of_sends {i j : Nat} (hj : c.Matters j) (h : c.Sends i j) : c.Matters i := by
  obtain ⟨k, hpath, hk⟩ := hj
  exact ⟨k, .head h hpath, hk⟩

/-- The first marks are at what is demanded. -/
theorem matters_of_markedFlags {i : Nat} (h : c.markedFlags[i]? = some true) : c.Matters i := by
  rw [getElem?_markedFlags, Option.map_eq_some_iff] at h
  obtain ⟨e, he, h⟩ := h
  refine ⟨i, .refl, e, he, ?_⟩
  rcases Bool.or_eq_true_iff.1 h with hpinned | hshown
  · exact .inl hpinned
  · obtain ⟨s, hs, hi⟩ := List.mem_flatMap.1 (List.contains_iff_mem.1 hshown)
    rw [Slot.connectedIds, Sorted.mem_ofList Sorted.isOrder_intLt, Slot.mem_flatten_values] at hi
    exact .inr ⟨s, hs, hi⟩

/-- One step marks units that matter only, if the marks before it are at such units. -/
theorem matters_of_marked (hwires : c.WiresInRange) {flags : List Bool}
    (hflags : ∀ i : Nat, flags[i]? = some true → c.Matters i) {u : Element × Nat}
    (hu : c.units[u.2]? = some u.1) {i : Nat} (hi : (marked flags u)[i]? = some true) :
    c.Matters i := by
  unfold marked at hi
  split at hi
  · exact hflags i hi
  · split at hi
    · rename_i hany
      by_cases hiu : u.2 = i
      · -- the unit has a receiver that is marked
        subst hiu
        obtain ⟨w, hw, hmark⟩ := List.any_eq_true.1 hany
        have h0 := (hwires u.1 (List.mem_of_getElem? hu) w hw).1
        rw [List.getD_eq_getElem?_getD] at hmark
        have hw' : flags[w.toNat]? = some true := by
          cases hget : flags[w.toNat]? with
          | none => rw [hget] at hmark; cases hmark
          | some flag => rw [hget] at hmark; exact congrArg some hmark
        refine (hflags _ hw').of_sends ⟨u.1, hu, ?_⟩
        rwa [Int.toNat_of_nonneg h0]
      · rw [List.getElem?_set_ne hiu] at hi
        exact hflags i hi
    · exact hflags i hi

/-- One round marks units that matter only. -/
theorem matters_of_round (hwires : c.WiresInRange) {units : List (Element × Nat)}
    (hunits : ∀ u ∈ units, c.units[u.2]? = some u.1) {flags : List Bool}
    (hflags : ∀ i : Nat, flags[i]? = some true → c.Matters i) :
    ∀ i : Nat, (round units flags)[i]? = some true → c.Matters i := by
  induction units generalizing flags with
  | nil => exact hflags
  | cons u rest ih =>
      refine ih (fun v hv => hunits v (List.mem_cons_of_mem u hv)) fun i hi => ?_
      exact matters_of_marked hwires hflags (hunits u List.mem_cons_self) hi

/-- **Only units that matter are marked**, whatever the number of rounds. -/
theorem Settles.matters (hwires : c.WiresInRange) {flags last : List Bool}
    (h : Settles c.units flags last) (hlength : flags.length = c.units.length)
    (hflags : ∀ i : Nat, flags[i]? = some true → c.Matters i) :
    ∀ i : Nat, last[i]? = some true → c.Matters i := by
  induction h with
  | done _ => exact hflags
  | round hspread _ _ ih =>
      rw [spread_eq hwires hlength] at hspread
      cases hspread
      refine ih (by rw [length_round, hlength]) (matters_of_round hwires ?_ hflags)
      intro u hu
      exact List.mem_zipIdx_iff_getElem?.1 hu

/-- **All units that matter are marked.** -/
theorem Uses.getElem?_of_matters {flags : List Bool} (h : c.Uses flags) {i : Nat}
    (hi : c.Matters i) : flags[i]? = some true := by
  obtain ⟨j, hpath, e, he, hj⟩ := hi
  induction hpath using Relation.ReflTransGen.head_induction_on with
  | refl =>
      rcases hj with hpinned | ⟨s, hs, p, hmem⟩
      · exact h.pinned j e he hpinned
      · have hshown := h.shown s hs p j hmem
        rwa [Int.toNat_natCast] at hshown
  | head hsends _ ih =>
      obtain ⟨u, hu, hmem⟩ := hsends
      exact h.spreads _ u hu _ hmem (by rw [Int.toNat_natCast]; exact ih)

/-- **The search ends, and it has marked exactly the units that matter.** -/
theorem exists_usedFlags (hslots : c.SlotsInRange) (hwires : c.WiresInRange) :
    ∃ flags, c.usedFlags = .ok flags ∧ c.Uses flags ∧ Settles c.units c.markedFlags flags
      ∧ ∀ i : Nat, flags[i]? = some true ↔ c.Matters i := by
  obtain ⟨flags, hflags, huses⟩ := usedFlags_eq_ok hslots hwires
  have hsettles : Settles c.units c.markedFlags flags :=
    settles_of_settle hwires c.length_markedFlags (by omega) hflags
  refine ⟨flags, hflags, huses, hsettles, fun i => ⟨fun hi => ?_, huses.getElem?_of_matters⟩⟩
  exact hsettles.matters hwires c.length_markedFlags (fun _ hj => matters_of_markedFlags hj) i hi

end Matters

/-! ### After the removal -/

namespace InducedBy

variable {flags : List Bool} {c d : Circuit}

/-- **Units that matter do so among the used ones as well**: all units on the way are used. -/
theorem matters (h : InducedBy flags c d)
    (hflags : ∀ i : Nat, c.Matters i → flags[i]? = some true) {i : Nat} (hi : c.Matters i) :
    d.Matters (Renumbering.rank flags i) := by
  have hkept (j : Nat) (hj : c.Matters j) :
      Renumbering.kept flags j = some (Renumbering.rank flags j : Int) := by
    rw [Renumbering.kept, Int.toNat_natCast, if_pos (hflags j hj)]
  obtain ⟨j, hpath, hdemanded⟩ := hi
  induction hpath using Relation.ReflTransGen.head_induction_on with
  | refl =>
      have hj : c.Matters j := ⟨j, .refl, hdemanded⟩
      obtain ⟨e, he, hcause⟩ := hdemanded
      refine ⟨_, .refl, _, h.getElem?_units he (hflags j hj), ?_⟩
      rcases hcause with hpinned | ⟨s, hs, p, hmem⟩
      · exact .inl hpinned
      · have hout : d.outputs = c.outputs.map fun s =>
            { s with ids := s.ids.map fun ids => ids.filterMap (Renumbering.kept flags) } :=
          h.slots .output
        refine .inr ⟨_, hout ▸ List.mem_map_of_mem hs, p, ?_⟩
        rw [s.getPoint_map_ids p rfl]
        exact List.mem_filterMap.2 ⟨j, hmem, hkept j hj⟩
  | @head first next hsends hrest ih =>
      have hnext : c.Matters next := ⟨j, hrest, hdemanded⟩
      have hfirst : c.Matters first := hnext.of_sends hsends
      obtain ⟨e, he, hmem⟩ := hsends
      refine ih.of_sends ⟨_, h.getElem?_units he (hflags _ hfirst), ?_⟩
      exact List.mem_filterMap.2 ⟨_, hmem, hkept _ hnext⟩

/-- What a slot addresses stays, by its new number, if it is used. -/
theorem slot_eq {s : Slot} (hs : ∀ p, ∀ i ∈ s.getPoint p, flags[i.toNat]? = some true) :
    ({ s with ids := s.ids.map fun ids => ids.filterMap (Renumbering.kept flags) } : Slot)
      = { s with ids := s.ids.map fun ids =>
          ids.map fun i => (Renumbering.rank flags i.toNat : Int) } := by
  have hids : (s.ids.map fun ids => ids.filterMap (Renumbering.kept flags))
      = s.ids.map fun ids => ids.map fun i => (Renumbering.rank flags i.toNat : Int) := by
    refine Slot.map_ids_congr fun p => ?_
    rw [← List.filterMap_eq_map]
    refine List.filterMap_congr fun i hi => ?_
    rw [Renumbering.kept, if_pos (hs p i hi)]
    rfl
  rw [hids]

end InducedBy

/-- **Used means reaching something demanded, and one removal is enough.**  In a closed circuit the
search for used units ends, and it has marked exactly the units from which connections lead to a
pinned unit or to one that an output slot addresses.  Removing the others leaves the sub-circuit of
the marked units, and the answer is the number of the others.  Behind the points of the output slots
all units stay, by their new numbers.  Every unit of the result is used, so that a second removal
finds nothing and leaves it as it is. -/
theorem removeUnused_complete {c : Circuit} (hc : c.Closed) :
    ∃ flags, c.usedFlags = .ok flags ∧ flags.length = c.units.length
      ∧ Settles c.units c.markedFlags flags
      ∧ (∀ i : Nat, flags[i]? = some true ↔ c.Matters i)
      ∧ ∃ d, removeUnused c = .ok (flags.count false) d ∧ InducedBy flags c d
        ∧ d.outputs = (c.outputs.map fun s =>
            { s with ids := s.ids.map fun ids =>
              ids.map fun i => (Renumbering.rank flags i.toNat : Int) })
        ∧ d.usedFlags = .ok (List.replicate d.units.length true)
        ∧ removeUnused d = .ok 0 d := by
  obtain ⟨flags, hflags, huses, hsettles, hmatters⟩ := exists_usedFlags hc.slots hc.wires
  obtain ⟨d, hkept, hd, hclosed⟩ := hc.exists_keepUnits huses.length_eq
  have hremoved : removeUnused c = .ok (flags.count false) d := by
    rw [removeUnused_eq hflags, hkept]
  have hcount : d.units.length = flags.count true := by
    rw [hd.units, List.length_map, ← keptUnits_keepFrom 0, length_keptUnits huses.length_eq]
  -- all units of the result are marked in its own search
  obtain ⟨again, hagain, huses', _, hmatters'⟩ := exists_usedFlags hclosed.slots hclosed.wires
  have hall : again = List.replicate d.units.length true := by
    refine List.eq_replicate_iff.2 ⟨huses'.length_eq, fun flag hflag => ?_⟩
    obtain ⟨k, hk⟩ := List.mem_iff_getElem?.1 hflag
    have hlt : k < flags.count true := by
      rw [← hcount, ← huses'.length_eq]
      exact (List.getElem?_eq_some_iff.1 hk).1
    obtain ⟨i, hi, rfl⟩ := Renumbering.exists_rank_eq hlt
    have hmark := (hmatters' _).2 (hd.matters (fun j => (hmatters j).2) ((hmatters i).1 hi))
    rw [hk] at hmark
    exact Option.some.inj hmark
  rw [hall] at hagain
  refine ⟨flags, hflags, huses.length_eq, hsettles, hmatters, d, hremoved, hd, ?_, hagain, ?_⟩
  · have hout : d.outputs = _ := hd.slots .output
    rw [hout]
    exact List.map_congr_left fun s hs => InducedBy.slot_eq (huses.shown s hs)
  · have hnone : (List.replicate d.units.length true).count false = 0 := by
      simp [List.count_replicate]
    rw [removeUnused_eq hagain, keepUnits, hnone]
    rfl

/-- Three units in a ring, two more that only send to each other, and a pinned one. -/
def eddies : Circuit where
  units := [⟨⟨.gate .or, [2], none, false⟩, ⟨0, 0, 0⟩, .identity⟩,
    ⟨⟨.gate .or, [1, 3], none, false⟩, ⟨1, 0, 0⟩, .identity⟩,
    ⟨⟨.gate .and, [4, 4], none, false⟩, ⟨2, 0, 0⟩, .identity⟩,
    ⟨⟨.timer 7, [1], none, false⟩, ⟨3, 0, 0⟩, .identity⟩,
    ⟨⟨.gate .or, [0], none, false⟩, ⟨4, 0, 0⟩, .identity⟩,
    ⟨⟨.gate .xor, [], none, true⟩, ⟨5, 0, 0⟩, .identity⟩]
  inputs := []
  outputs := [⟨"_", "bit", .single [4, 0, 4], []⟩]
  bounds := ⟨6, 1, 2⟩

theorem removeUnused_complete_eddies :
    eddies.Closed ∧ eddies.Matters 2 ∧ ¬ eddies.Matters 1
      ∧ ∃ d, removeUnused eddies = .ok 2 d
        ∧ d.outputs = [⟨"_", "bit", .single [2, 0, 2], []⟩] ∧ removeUnused d = .ok 0 d := by
  have hclosed : eddies.Closed := by
    refine ⟨fun side s hs => ?_, ?_, fun side => ?_, rfl⟩
    · rw [← Slot.dangling?_eq_none_iff_inRange]
      cases side with
      | input => cases hs
      | output =>
          obtain rfl := List.mem_singleton.1 hs
          decide
    · show ∀ e ∈ eddies.units, ∀ w ∈ e.wires, 0 ≤ w ∧ w < eddies.units.length
      decide
    · cases side with
      | input => exact List.nodup_nil
      | output => exact List.nodup_singleton _
  obtain ⟨flags, hflags, _, _, hmatters, d, hremoved, _, hout, _, hagain⟩ :=
    removeUnused_complete hclosed
  have hfound : eddies.usedFlags = .ok [true, false, true, false, true, true] := rfl
  obtain rfl := Except.ok.inj (hflags.symm.trans hfound)
  refine ⟨hclosed, (hmatters 2).1 rfl, fun h => ?_, d, hremoved, ?_, hagain⟩
  · cases (hmatters 1).2 h
  · rw [hout]
    rfl

end Circuit

end Breadboard
