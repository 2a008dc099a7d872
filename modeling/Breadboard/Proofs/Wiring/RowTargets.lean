import Breadboard.Proofs.Assembly.Connections
import Breadboard.Proofs.Wiring.Rows
import Breadboard.Proofs.Wiring.SlotPlan

/-!
**Paths that lead to rows.**

All that matters of a path that leads to a row are the units behind the points of the row.  They
determine what a link between two such paths connects and what stands behind the points of a planned
word.

Main definitions:

* `Target.IsRow` — a sector that is a row, with the units behind its points;
* `Scope.LeadsTo` — a path that leads to such a sector.

Main results:

* `Assembly.linkConnections_straight`, `Assembly.linkConnections_carry` — **the connections between
  two rows**;
* `SlotPlan.exists_make_word`, `SlotPlan.exists_make_wordByBit` — **the slots that plans of words
  make**.
-/

set_option autoImplicit false
set_option relaxedAutoImplicit false

namespace Breadboard

/-- A sector of `w` points that begins at the place `q` of a row, with the units `f x` behind its
point `x`. -/
structure Target.IsRow (t : Target) (q w : Nat) (f : Nat → List Int) : Prop where
  frame_eq : ∃ m : Nat, q + w ≤ m ∧ t.frame = ⟨⟨q, 0, 0⟩, ⟨w, 1, 1⟩, ⟨m, 1, 1⟩⟩
  unitsAt_eq : ∀ x < w, t.unitsAt ⟨(q + x : Nat), 0, 0⟩ = f x

namespace Target.IsRow

variable {t : Target} {q w : Nat} {f : Nat → List Int}

theorem size_eq (h : t.IsRow q w f) : t.sector.size = ⟨w, 1, 1⟩ := by
  obtain ⟨m, _, hframe⟩ := h.frame_eq
  exact congrArg Frame.size hframe

end Target.IsRow

/-- A path leads to a row of `w` points, with the units `f x` behind the point `x`. -/
def Scope.LeadsTo (scope : Scope) (path : String) (w : Nat) (f : Nat → List Int) : Prop :=
  ∃ t q, scope.resolve path = .ok t ∧ t.IsRow q w f

namespace Assembly

/-! ### Links between rows -/

section Links

variable {outputs inputs : Scope} {source target : String} {w v : Nat} {f g : Nat → List Int}

/-- Equal places of two rows are connected. -/
theorem linkConnections_straight (hsource : outputs.LeadsTo source w f)
    (htarget : inputs.LeadsTo target v g) :
    linkConnections outputs inputs (.straight source target)
      = .ok ((List.range (min w v)).flatMap fun x =>
          (f x).flatMap fun i => (g x).map fun j => (i, j)) := by
  obtain ⟨s, k, hs, hsrow⟩ := hsource
  obtain ⟨t, q, ht, htrow⟩ := htarget
  obtain ⟨n, hn, hsframe⟩ := hsrow.frame_eq
  obtain ⟨m, hm, htframe⟩ := htrow.frame_eq
  simp only [linkConnections, connectionsBetween, Link.straight, hs, ht, hsrow.size_eq,
    htrow.size_eq, Wiring.pairs_straight_row, hsframe, htframe, bind, Except.bind, pure, Except.pure,
    Frame.liftPairs_straight_row hn hm, List.flatMap_map]
  refine congrArg Except.ok (List.flatMap_congr fun x hx => ?_)
  have hx := List.mem_range.1 hx
  rw [pairConnections, hsrow.unitsAt_eq x (by omega), htrow.unitsAt_eq x (by omega)]

/-- Every place of a row is connected to the next place of the other one. -/
theorem linkConnections_carry (hsource : outputs.LeadsTo source w f)
    (htarget : inputs.LeadsTo target w g) :
    linkConnections outputs inputs (.carry source target)
      = .ok ((List.range (w - 1)).flatMap fun x =>
          (f x).flatMap fun i => (g (x + 1)).map fun j => (i, j)) := by
  obtain ⟨s, k, hs, hsrow⟩ := hsource
  obtain ⟨t, q, ht, htrow⟩ := htarget
  obtain ⟨n, hn, hsframe⟩ := hsrow.frame_eq
  obtain ⟨m, hm, htframe⟩ := htrow.frame_eq
  simp only [linkConnections, connectionsBetween, Link.carry, hs, ht, hsrow.size_eq,
    htrow.size_eq, Wiring.pairs_shift_row, hsframe, htframe, bind, Except.bind, pure, Except.pure,
    Frame.liftPairs_shift_row hn hm, List.flatMap_map]
  refine congrArg Except.ok (List.flatMap_congr fun x hx => ?_)
  have hx := List.mem_range.1 hx
  rw [pairConnections, hsrow.unitsAt_eq x (by omega), htrow.unitsAt_eq (x + 1) (by omega)]

/-- There is nothing to report on a link between paths that lead somewhere. -/
theorem linkReport_eq_nil (hsource : outputs.LeadsTo source w f)
    (htarget : inputs.LeadsTo target v g) (wiring : Wiring) :
    linkReport outputs inputs ⟨source, target, wiring⟩ = [] := by
  obtain ⟨s, k, hs, _⟩ := hsource
  obtain ⟨t, q, ht, _⟩ := htarget
  simp only [linkReport, hs, ht]

end Links

end Assembly

namespace SlotPlan

/-! ### Plans of rows -/

section Plans

variable {plan : SlotPlan} {scope : Scope} {side : Side} {n : Nat}

/-- What an entry for places of a row puts behind them. -/
theorem entryCells_row (side : Side) {k w v : Nat} {path : String} {g : Nat → List Int}
    (hbounds : plan.bounds = ⟨n, 1, 1⟩) (hfit : k + w ≤ n) (hpath : scope.LeadsTo path v g) :
    plan.entryCells scope side ⟨⟨k, 0, 0⟩, ⟨w, 1, 1⟩, path, .straight⟩
      = .ok ((List.range (min w v)).map fun (x : Nat) =>
          ((⟨(k + x : Nat), 0, 0⟩ : Point), g x)) := by
  obtain ⟨t, q, ht, hrow⟩ := hpath
  obtain ⟨m, hm, hframe⟩ := hrow.frame_eq
  -- on the output side the pairs run from the target to the entry and are swapped
  cases side with
  | input =>
      simp only [entryCells, ht, entryPairs, hrow.size_eq, Wiring.pairs_straight_row, hbounds,
        hframe, bind, Except.bind, pure, Except.pure, Frame.liftPairs_straight_row hfit hm,
        List.map_map]
      refine congrArg Except.ok (List.map_congr_left fun x hx => ?_)
      have hx := List.mem_range.1 hx
      rw [Function.comp_apply, hrow.unitsAt_eq x (by omega)]
  | output =>
      rw [Nat.min_comm w v]
      simp only [entryCells, ht, entryPairs, hrow.size_eq, Wiring.pairs_straight_row, hbounds,
        hframe, bind, Except.bind, pure, Except.pure, Frame.liftPairs_straight_row hm hfit,
        List.map_map]
      refine congrArg Except.ok (List.map_congr_left fun x hx => ?_)
      have hx := List.mem_range.1 hx
      simp only [Function.comp_apply, Prod.swap_prod_mk, hrow.unitsAt_eq x (Nat.lt_of_lt_of_le hx
        (Nat.min_le_left v w))]

/-- There is nothing to report on an entry whose path leads somewhere. -/
theorem unresolved_eq_nil {entry : PlanEntry × Nat} {v : Nat} {g : Nat → List Int}
    (hpath : scope.LeadsTo entry.1.path v g) : unresolved scope entry = [] := by
  obtain ⟨t, q, ht, _⟩ := hpath
  simp only [unresolved, ht]

/-- A plan of a row makes a row, with what its entries put behind each place. -/
theorem exists_make_row {items : List (List (Point × List Int))} (hsize : plan.size = wordSize n)
    (hitems : plan.entries.mapM (plan.entryCells scope side) = .ok items)
    (hpaths : ∀ entry ∈ plan.entries, ∃ v g, scope.LeadsTo entry.path v g) :
    ∃ s, plan.make scope side = .ok (s, []) ∧ s.name = plan.name
      ∧ s.IsRow n fun x =>
        (items.flatten.filter fun item => decide (item.1 = ⟨x, 0, 0⟩)).flatMap Prod.snd := by
  have hreport : plan.entries.zipIdx.flatMap (unresolved scope) = [] := by
    refine List.flatMap_eq_nil_iff.2 fun entry hentry => ?_
    obtain ⟨v, g, hpath⟩ := hpaths entry.1 (List.fst_mem_of_mem_zipIdx hentry)
    exact unresolved_eq_nil hpath
  refine ⟨plan.filledWith items, ?_, rfl, ?_, ?_⟩
  · exact make_eq_ok_iff.2 ⟨hsize ▸ holdableIfEmpty_wordSize n, items, hitems, rfl, hreport.symm⟩
  · rw [Slot.size, filledWith, Dense.size_extend, hsize]
    rfl
  · intro x hx
    have hin : (⟨x, 0, 0⟩ : Point).isInside plan.size.extents = true := by
      rw [hsize]
      exact Point.isInside_row_iff.2 hx
    rw [filledWith, Dense.get?_extend, Dense.get?_filled [] hin]
    rfl

/-- What stands behind one place of a row. -/
theorem flatMap_filter_row (h : Nat → List Int) {x : Nat} (hx : x < n) :
    (((List.range n).map fun (y : Nat) => ((⟨y, 0, 0⟩ : Point), h y)).filter
      fun item => decide (item.1 = ⟨x, 0, 0⟩)).flatMap Prod.snd = h x := by
  rw [List.map_eq_flatMap, List.filter_flatMap, List.flatMap_assoc, Row.flatMap_range_eq hx]
  · simp
  · intro y _ hne
    have hpoint : (⟨y, 0, 0⟩ : Point) ≠ ⟨x, 0, 0⟩ := by
      simp only [ne_eq, Point.mk.injEq, and_true]
      omega
    simp [hpoint]

/-- A word whose entries reach over all of its bits, by the paths of the entries and what they lead
to. -/
theorem exists_make_word (leads : List (String × (Nat → List Int))) (hsize : plan.size = wordSize n)
    (hentries : plan.entries = leads.map fun lead => ⟨.origin, ⟨n, 1, 1⟩, lead.1, .straight⟩)
    (hleads : ∀ lead ∈ leads, ∃ v, n ≤ v ∧ scope.LeadsTo lead.1 v lead.2) :
    ∃ s, plan.make scope side = .ok (s, []) ∧ s.name = plan.name
      ∧ s.IsRow n fun x => leads.flatMap fun lead => lead.2 x := by
  have hbounds : plan.bounds = ⟨n, 1, 1⟩ := by rw [bounds, hsize]; rfl
  have hitems : plan.entries.mapM (plan.entryCells scope side)
      = .ok (leads.map fun lead => (List.range n).map fun (x : Nat) =>
          ((⟨x, 0, 0⟩ : Point), lead.2 x)) := by
    rw [hentries, List.mapM_map]
    refine Loop.mapM_eq_map fun lead hmem => ?_
    obtain ⟨v, hv, hlead⟩ := hleads lead hmem
    have hcells := entryCells_row side (k := 0) (w := n) hbounds (by omega) hlead
    rw [Nat.min_eq_left hv] at hcells
    simp only [Nat.zero_add] at hcells
    exact hcells
  obtain ⟨s, hmake, hname, hrow⟩ := exists_make_row hsize hitems fun entry hentry => by
    rw [hentries] at hentry
    obtain ⟨lead, hmem, rfl⟩ := List.mem_map.1 hentry
    obtain ⟨v, _, hlead⟩ := hleads lead hmem
    exact ⟨v, lead.2, hlead⟩
  refine ⟨s, hmake, hname, hrow.size_eq, fun x hx => ?_⟩
  rw [hrow.get?_eq x hx, ← List.flatMap_def, List.filter_flatMap, List.flatMap_assoc]
  exact congrArg some (List.flatMap_congr fun lead _ => flatMap_filter_row lead.2 hx)

/-- A word with an entry for each of its bits. -/
theorem exists_make_wordByBit {pathOf : Nat → String} {g : Nat → List Int}
    (hsize : plan.size = wordSize n)
    (hentries : plan.entries
      = (List.range n).map fun (x : Nat) => ⟨⟨x, 0, 0⟩, .one, pathOf x, .straight⟩)
    (hpaths : ∀ x < n, scope.LeadsTo (pathOf x) 1 fun _ => g x) :
    ∃ s, plan.make scope side = .ok (s, []) ∧ s.name = plan.name ∧ s.IsRow n g := by
  have hbounds : plan.bounds = ⟨n, 1, 1⟩ := by rw [bounds, hsize]; rfl
  have hitems : plan.entries.mapM (plan.entryCells scope side)
      = .ok ((List.range n).map fun (x : Nat) => [((⟨x, 0, 0⟩ : Point), g x)]) := by
    rw [hentries, List.mapM_map]
    refine Loop.mapM_eq_map fun x hx => ?_
    have hx := List.mem_range.1 hx
    exact entryCells_row side (k := x) (w := 1) hbounds (by omega) (hpaths x hx)
  obtain ⟨s, hmake, hname, hrow⟩ := exists_make_row hsize hitems fun entry hentry => by
    rw [hentries] at hentry
    obtain ⟨x, hx, rfl⟩ := List.mem_map.1 hentry
    exact ⟨1, _, hpaths x (List.mem_range.1 hx)⟩
  refine ⟨s, hmake, hname, hrow.size_eq, fun x hx => ?_⟩
  rw [hrow.get?_eq x hx, ← List.flatMap_def, ← List.map_eq_flatMap]
  exact congrArg some (flatMap_filter_row g hx)

end Plans

end SlotPlan

end Breadboard
