import Breadboard.Proofs.Assembly.Flattening
import Breadboard.Proofs.Circuit.Reordered
import Breadboard.Proofs.Wiring.SlotPlan
import Mathlib.Data.List.Sigma

/-!
**Links and plans after a renumbering.**

Two scopes may offer the same sectors with different numbers for the units behind them.  Nothing
that is done with a path looks at the numbers, so the same links draw the same connections and the
same plans make the same slots, up to the numbers.

Main definitions:

* `Target.Renumbers`, `Scope.Renumbers` — the same sectors with other numbers for their units.

Main results:

* `Assembly.linkConnections_renumbers` — **a link draws the same connections**;
* `Assembly.makeSlots_renumbers` — **plans make the same slots**;
* `Assembly.receivers_renumbers` — a unit is given the same receivers;
* `Assembly.agree_checkFanOut` — as many units have too many receivers.
-/

set_option autoImplicit false
set_option relaxedAutoImplicit false

namespace Breadboard

open Renumbering (along)

/-- A target is another one with its units renumbered. -/
structure Target.Renumbers (π : Nat → Nat) (t t' : Target) : Prop where
  slot : t'.slot = t.slot
  sector : t'.sector = t.sector
  unitsAt : ∀ p, t'.unitsAt p = (t.unitsAt p).map (along π)

theorem Target.Renumbers.frame {π : Nat → Nat} {t t' : Target} (h : t.Renumbers π t') :
    t'.frame = t.frame := by
  rw [Target.frame, Target.frame, h.slot, h.sector]

/-- Every path leads to the same sector in both scopes, with its units renumbered, or fails at the
same part. -/
def Scope.Renumbers (π : Nat → Nat) (scope scope' : Scope) : Prop :=
  ∀ path, (∃ missing, scope.resolve path = .error missing ∧ scope'.resolve path = .error missing)
    ∨ ∃ t t', scope.resolve path = .ok t ∧ scope'.resolve path = .ok t' ∧ t.Renumbers π t'

variable {π : Nat → Nat}

namespace SlotPlan

/-! ### Plans -/

section Plans

variable {scope scope' : Scope} (h : scope.Renumbers π scope') (plan : SlotPlan) (side : Side)
include h

/-- An entry puts the same units behind the same points. -/
theorem entryCells_renumbers (entry : PlanEntry) :
    plan.entryCells scope' side entry
      = List.map (fun cell => (cell.1, cell.2.map (along π)))
        <$> plan.entryCells scope side entry := by
  rcases h entry.path with ⟨missing, hm, hm'⟩ | ⟨t, t', ht, ht', hrenumbers⟩
  · simp only [entryCells, hm, hm']
    rfl
  · have hpairs : plan.entryPairs side entry t' = plan.entryPairs side entry t := by
      simp only [entryPairs, hrenumbers.frame, hrenumbers.sector]
    simp only [entryCells, ht, ht', hpairs]
    cases plan.entryPairs side entry t with
    | error fault => rfl
    | ok pairs =>
        refine congrArg Except.ok ?_
        rw [List.map_map]
        exact List.map_congr_left fun pair _ => by
          rw [hrenumbers.unitsAt, Function.comp_apply]

/-- The same entries are reported. -/
theorem unresolved_renumbers (entry : PlanEntry × Nat) :
    unresolved scope' entry = unresolved scope entry := by
  rcases h entry.1.path with ⟨missing, hm, hm'⟩ | ⟨t, t', ht, ht', _⟩
  · simp only [unresolved, hm, hm']
  · simp only [unresolved, ht, ht']

/-- A plan makes the same slot. -/
theorem make_renumbers :
    plan.make scope' side = (fun made => (made.1.along π, made.2)) <$> plan.make scope side := by
  rw [make_eq, make_eq, Loop.mapM_map_result fun entry _ => entryCells_renumbers h plan side entry,
    List.flatMap_congr fun entry _ => unresolved_renumbers h entry]
  cases plan.size.checkEmpty with
  | error fault => rfl
  | ok =>
      cases plan.entries.mapM (plan.entryCells scope side) with
      | error fault => rfl
      | ok items =>
          refine congrArg Except.ok (Prod.ext (Slot.mk.injEq .. ▸ ⟨rfl, rfl, ?_, rfl⟩) rfl)
          rw [Dense.map_extend, Dense.map_filled_nil, List.map_flatten]

end Plans

end SlotPlan

namespace Assembly

/-- Plans make the same slots. -/
theorem makeSlots_renumbers {scope scope' : Scope} (h : scope.Renumbers π scope')
    (plans : List SlotPlan) (side : Side) :
    makeSlots plans scope' side
      = (fun made => (made.1.map (Slot.along π), made.2)) <$> makeSlots plans scope side := by
  rw [makeSlots, makeSlots, Loop.mapM_map_result fun plan _ => plan.make_renumbers h side]
  cases plans.mapM fun plan => plan.make scope side with
  | error fault => rfl
  | ok made =>
      refine congrArg Except.ok (Prod.ext ?_ ?_)
      · simp only [List.map_map]
        rfl
      · simp only [List.filter_map, List.map_map]
        rfl

/-! ### Links -/

/-- A wiring draws the same connections. -/
theorem connectionsBetween_renumbers {s s' t t' : Target} (hsource : s.Renumbers π s')
    (htarget : t.Renumbers π t') (wiring : Wiring) :
    connectionsBetween wiring s' t'
      = List.map (Prod.map (along π) (along π)) <$> connectionsBetween wiring s t := by
  have hpair (pair : Pair) : pairConnections s' t' pair
      = (pairConnections s t pair).map (Prod.map (along π) (along π)) := by
    rw [pairConnections, pairConnections, hsource.unitsAt, htarget.unitsAt, List.flatMap_map,
      List.map_flatMap]
    refine List.flatMap_congr fun i _ => ?_
    rw [List.map_map, List.map_map]
    rfl
  simp only [connectionsBetween, hsource.sector, htarget.sector, hsource.frame, htarget.frame]
  cases wiring.pairs s.sector.size t.sector.size with
  | error fault => rfl
  | ok proposed =>
      refine congrArg Except.ok ?_
      rw [List.map_flatMap]
      exact List.flatMap_congr fun pair _ => hpair pair

section Links

variable {outputs outputs' inputs inputs' : Scope} (hout : outputs.Renumbers π outputs')
  (hin : inputs.Renumbers π inputs')
include hout hin

/-- **A link draws the same connections.** -/
theorem linkConnections_renumbers (link : Link) :
    linkConnections outputs' inputs' link
      = List.map (Prod.map (along π) (along π)) <$> linkConnections outputs inputs link := by
  rcases hout link.source with ⟨missing, hm, hm'⟩ | ⟨s, s', hs, hs', hsource⟩
  · simp only [linkConnections, hm, hm']
    rfl
  · rcases hin link.target with ⟨missing, hm, hm'⟩ | ⟨t, t', ht, ht', htarget⟩
    · simp only [linkConnections, hs, hs', hm, hm']
      rfl
    · simp only [linkConnections, hs, hs', ht, ht']
      exact connectionsBetween_renumbers hsource htarget link.wiring

/-- The same links are reported. -/
theorem linkReport_renumbers (link : Link) :
    linkReport outputs' inputs' link = linkReport outputs inputs link := by
  rcases hout link.source with ⟨missing, hm, hm'⟩ | ⟨s, s', hs, hs', _⟩ <;>
    rcases hin link.target with ⟨missing', hn, hn'⟩ | ⟨t, t', ht, ht', _⟩ <;>
    simp only [linkReport, *] <;> rfl

end Links

/-! ### Receivers -/

/-- A unit is given the same receivers. -/
theorem receivers_renumbers {n : Nat} (hπ : Set.InjOn π (Set.Iio n))
    {connections : List (Int × Int)} (hconnections : ∀ c ∈ connections, 0 ≤ c.1 ∧ c.1 < n)
    {i : Nat} (hi : i < n) :
    receivers (connections.map (Prod.map (along π) (along π))) (π i : Nat)
      = (receivers connections i).map (along π) := by
  rw [receivers, receivers, List.filter_map, List.map_map, List.map_map]
  refine congrArg₂ _ rfl (List.filter_congr fun c hc => ?_)
  have hsame := Renumbering.along_inj hπ (hconnections c hc) (j := i) ⟨by omega, by omega⟩
  rw [Renumbering.along_natCast] at hsame
  rw [Bool.eq_iff_iff, Function.comp_apply, Prod.map_fst, beq_iff_eq, beq_iff_eq]
  exact hsame

/-! ### Units with too many receivers -/

theorem mem_overflowing {limit : Int} {units : List Element} {u : Nat × Nat} :
    u ∈ overflowing limit units ↔
      ∃ e, units[u.1]? = some e ∧ limit < (e.wires.length : Int) ∧ e.wires.length = u.2 := by
  obtain ⟨i, k⟩ := u
  simp only [overflowing, List.mem_filterMap, Prod.exists, List.mem_zipIdx_iff_getElem?,
    Option.ite_none_right_eq_some, Option.some.injEq, Prod.mk.injEq]
  constructor
  · rintro ⟨e, j, he, hlimit, rfl, rfl⟩
    exact ⟨e, he, hlimit, rfl⟩
  · rintro ⟨e, he, hlimit, rfl⟩
    exact ⟨e, i, he, hlimit, rfl, rfl⟩

theorem nodup_overflowing (limit : Int) (units : List Element) :
    (overflowing limit units).Nodup := by
  -- entries for different units differ in the number of the unit
  have hunits := List.pairwise_map.1 (List.nodup_zipIdx_map_snd units)
  refine List.pairwise_filterMap.2 (hunits.imp fun {a b} hne u hu v hv e => hne ?_)
  rw [Option.ite_none_right_eq_some] at hu hv
  have hsame := hu.2.trans ((congrArg some e).trans hv.2.symm)
  exact (Prod.mk.inj (Option.some.inj hsame)).1

/-- The same units have too many receivers. -/
theorem perm_overflowing {units units' : List Element}
    (hπ : Set.BijOn π (Set.Iio units.length) (Set.Iio units.length))
    (h : Circuit.ReordersUnits π units units') (limit : Int) :
    (overflowing limit units').Perm
      ((overflowing limit units).map fun u => (π u.1, u.2)) := by
  refine (List.perm_ext_iff_of_nodup (nodup_overflowing limit units') ?_).2 fun u => ?_
  · refine List.Nodup.map_on (fun u hu v hv e => ?_) (nodup_overflowing limit units)
    obtain ⟨e₁, hu, _⟩ := mem_overflowing.1 hu
    obtain ⟨e₂, hv, _⟩ := mem_overflowing.1 hv
    have hfst := hπ.injOn (Set.mem_Iio.2 (List.getElem?_eq_some_iff.1 hu).1)
      (Set.mem_Iio.2 (List.getElem?_eq_some_iff.1 hv).1) (Prod.mk.inj e).1
    exact Prod.ext hfst (Prod.mk.inj e).2
  · rw [mem_overflowing, List.mem_map]
    constructor
    · rintro ⟨e', he', hlimit, hlength⟩
      obtain ⟨i, hi, hpi⟩ := hπ.surjOn
        (Set.mem_Iio.2 (h.length_eq ▸ (List.getElem?_eq_some_iff.1 he').1))
      have hget := h.getElem?_eq i hi
      rw [hpi, he', List.getElem?_eq_getElem hi, Option.map_some, Option.some_inj] at hget
      have hwires : e'.wires.length = units[i].wires.length := by
        rw [hget, Element.along, List.length_map]
      exact ⟨(i, u.2), mem_overflowing.2 ⟨_, List.getElem?_eq_getElem hi, hwires ▸ hlimit,
        hwires ▸ hlength⟩, by rw [hpi]⟩
    · rintro ⟨v, hv, rfl⟩
      obtain ⟨e, he, hlimit, hlength⟩ := mem_overflowing.1 hv
      have hget := h.getElem?_eq v.1 (List.getElem?_eq_some_iff.1 he).1
      rw [he, Option.map_some] at hget
      have hwires : (e.along π).wires.length = e.wires.length := List.length_map _
      exact ⟨_, hget, hwires.symm ▸ hlimit, hwires.trans hlength⟩

end Assembly

end Breadboard
