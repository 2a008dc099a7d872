import Breadboard.Wiring.SlotPlan
import Breadboard.Proofs.Loop
import Breadboard.Proofs.Grid.Dense
import Breadboard.Proofs.Grid.Storage

/-!
**The slots that plans make.**

A plan is made entry by entry, and every entry puts units behind points of the new slot.  Seen as a
whole, behind each point stand the units that the entries put there, in their order.

Main definitions:

* `Dense.extend` — an array of lists with more entries behind given points;
* `SlotPlan.entryCells` — what one entry puts behind which points;
* `SlotPlan.unresolved` — the report on one entry.

Main results:

* `Dense.get?_extend` — **what stands behind a point afterwards**;
* `Dense.map_extend` — a function on the entries may be applied before or after;
* `SlotPlan.make_eq` — **making a slot, as one pass over the entries**;
* `SlotPlan.make_eq_ok_iff` — when a slot is made, and which.
-/

set_option autoImplicit false
set_option relaxedAutoImplicit false

namespace Breadboard

universe u

namespace Dense

variable {β : Type u}

/-- An array of lists with more entries behind given points. -/
def extend (d : Dense (List β)) (items : List (Point × List β)) : Dense (List β) :=
  items.foldl (fun d item => d.modify item.1 fun ids => ids ++ item.2) d

theorem extend_append (d : Dense (List β)) (first second : List (Point × List β)) :
    d.extend (first ++ second) = (d.extend first).extend second := by
  simp [extend]

@[simp] theorem size_extend (d : Dense (List β)) (items : List (Point × List β)) :
    (d.extend items).size = d.size := by
  induction items generalizing d with
  | nil => rfl
  | cons item rest ih => exact ih _

/-- **What stands behind a point afterwards**: what stood there and what was put there, in order. -/
theorem get?_extend (d : Dense (List β)) (items : List (Point × List β)) (p : Point) :
    (d.extend items).get? p = (d.get? p).map fun ids =>
      ids ++ (items.filter fun item => decide (item.1 = p)).flatMap Prod.snd := by
  induction items generalizing d with
  | nil => simp [extend]
  | cons item rest ih =>
      have hrest := ih (d.modify item.1 fun ids => ids ++ item.2)
      rw [get?_modify] at hrest
      refine hrest.trans ?_
      by_cases h : p = item.1
      · subst h
        simp [Function.comp_def, List.append_assoc]
      · simp [h, Ne.symm h]

/-- A function on the entries may be applied before or after. -/
theorem map_extend {γ : Type u} (f : β → γ) (d : Dense (List β)) (items : List (Point × List β)) :
    (d.extend items).map (List.map f)
      = (d.map (List.map f)).extend (items.map fun item => (item.1, item.2.map f)) := by
  refine ext_get? (by simp) fun p => ?_
  rw [get?_map, get?_extend, get?_extend, get?_map, List.filter_map, List.flatMap_map]
  cases d.get? p with
  | none => rfl
  | some ids =>
      simp only [Option.map_some, List.map_append, List.map_flatMap]
      rfl

theorem map_filled_nil {γ : Type u} (f : β → γ) (size : Size) :
    (filled size ([] : List β)).map (List.map f) = filled size [] := by
  simp [filled, map]

end Dense

namespace SlotPlan

/-- What one entry puts behind which points; nothing if its path leads nowhere. -/
def entryCells (plan : SlotPlan) (scope : Scope) (side : Side) (entry : PlanEntry) :
    Except Fault (List (Point × List Int)) :=
  match scope.resolve entry.path with
  | .error _ => .ok []
  | .ok target => do
      let pairs ← plan.entryPairs side entry target
      pure (pairs.map fun pair => (pair.1, target.unitsAt pair.2))

/-- The report on one entry, if its path leads nowhere. -/
def unresolved (scope : Scope) (entry : PlanEntry × Nat) : List Unresolved :=
  match scope.resolve entry.1.path with
  | .error missing => [⟨entry.2, missing⟩]
  | .ok _ => []

theorem collect_eq (target : Target) (cells : Dense (List Int)) (pairs : List Pair) :
    collect target cells pairs
      = cells.extend (pairs.map fun pair => (pair.1, target.unitsAt pair.2)) := by
  rw [Dense.extend, List.foldl_map]
  rfl

/-- What following one entry does. -/
theorem follow_eq (plan : SlotPlan) (scope : Scope) (side : Side) (cells : Dense (List Int))
    (missing : List Unresolved) (entry : PlanEntry × Nat) :
    plan.follow scope side (cells, missing) entry = (do
      let items ← plan.entryCells scope side entry.1
      pure (cells.extend items, missing ++ unresolved scope entry)) := by
  unfold follow entryCells unresolved
  cases scope.resolve entry.1.path with
  | error m => rfl
  | ok target =>
      cases h : plan.entryPairs side entry.1 target with
      | error fault => simp only [h, bind, Except.bind]
      | ok pairs => simp only [h, bind, Except.bind, pure, Except.pure, collect_eq, List.append_nil]

/-- What following all entries does. -/
theorem foldlM_follow_eq (plan : SlotPlan) (scope : Scope) (side : Side)
    (entries : List PlanEntry) (k : Nat) (cells : Dense (List Int)) (missing : List Unresolved) :
    (entries.zipIdx k).foldlM (plan.follow scope side) (cells, missing) = (do
      let items ← entries.mapM (plan.entryCells scope side)
      pure (cells.extend items.flatten,
        missing ++ (entries.zipIdx k).flatMap (unresolved scope))) := by
  induction entries generalizing k cells missing with
  | nil => simp [Dense.extend]
  | cons entry rest ih =>
      rw [List.zipIdx_cons, List.foldlM_cons, follow_eq, List.mapM_cons]
      cases plan.entryCells scope side entry with
      | error fault => rfl
      | ok items =>
          refine (ih (k + 1) (cells.extend items) _).trans ?_
          cases rest.mapM (plan.entryCells scope side) with
          | error fault => rfl
          | ok later =>
              refine congrArg Except.ok ?_
              rw [List.flatten_cons, Dense.extend_append, List.flatMap_cons, List.append_assoc]

/-- **Making a slot, as one pass over the entries.** -/
theorem make_eq (plan : SlotPlan) (scope : Scope) (side : Side) :
    plan.make scope side = (do
      plan.size.checkEmpty
      let items ← plan.entries.mapM (plan.entryCells scope side)
      pure (⟨plan.name, plan.kind, (Dense.filled plan.size []).extend items.flatten, plan.sectors⟩,
        plan.entries.zipIdx.flatMap (unresolved scope))) := by
  unfold make
  rw [foldlM_follow_eq]
  cases plan.size.checkEmpty <;> cases plan.entries.mapM (plan.entryCells scope side) <;> rfl

/-- The slot that a plan makes of what its entries put behind points. -/
def filledWith (plan : SlotPlan) (items : List (List (Point × List Int))) : Slot :=
  ⟨plan.name, plan.kind, (Dense.filled plan.size []).extend items.flatten, plan.sectors⟩

/-- **A slot is made exactly if its box is not refused and every entry can be followed**, and then
it holds what the entries put behind its points. -/
theorem make_eq_ok_iff {plan : SlotPlan} {scope : Scope} {side : Side} {s : Slot}
    {missing : List Unresolved} :
    plan.make scope side = .ok (s, missing) ↔ plan.size.HoldableIfEmpty
      ∧ ∃ items, plan.entries.mapM (plan.entryCells scope side) = .ok items
        ∧ s = plan.filledWith items
        ∧ missing = plan.entries.zipIdx.flatMap (unresolved scope) := by
  rw [make_eq, Fault.bind_eq_ok_iff, ← Size.checkEmpty_eq_ok_iff]
  constructor
  · rintro ⟨⟨⟩, hsize, h⟩
    obtain ⟨items, hitems, h⟩ := Fault.bind_eq_ok_iff.1 h
    cases h
    exact ⟨hsize, items, hitems, rfl, rfl⟩
  · rintro ⟨hsize, items, hitems, rfl, rfl⟩
    exact ⟨(), hsize, Fault.bind_eq_ok_iff.2 ⟨items, hitems, rfl⟩⟩

end SlotPlan

end Breadboard
