import Breadboard.Proofs.Grid.Dense
import Breadboard.Proofs.Circuit.BoundingBox

/-!
**References to units that exist.**

The constructor of circuits refuses slots that address units which do not exist.  It does not look
at the connections of the units, so for these the same is stated separately.

Main definitions:

* `Slot.All`, `Slot.InRange` — every index behind a point of the slot has a property, or is that of
  a unit;
* `Circuit.SlotsInRange`, `Circuit.WiresInRange` — the slots of a circuit, and the connections of
  its units, lead to units of the circuit only.

Main results:

* `Slot.dangling?_eq_none_iff_inRange` — nothing is reported exactly about such slots;
* `Circuit.slotsInRange_of_build` — **the slots of a circuit that was built are in range**;
* `Circuit.exists_build` — what it takes to build a circuit.
-/

set_option autoImplicit false
set_option relaxedAutoImplicit false

namespace Breadboard

namespace Slot

/-- Every index behind a point of the slot has a property. -/
def All (P : Int → Prop) (s : Slot) : Prop := ∀ p, ∀ i ∈ s.getPoint p, P i

/-- Every index behind a point of the slot is that of one of `n` units. -/
def InRange (s : Slot) (n : Nat) : Prop := ∀ p, ∀ i ∈ s.getPoint p, 0 ≤ i ∧ i < n

/-- The items of a slot are its points with the units behind them. -/
theorem getPoint_of_mem_items {s : Slot} {item : Point × List Int} (h : item ∈ s.ids.items) :
    s.getPoint item.1 = item.2 := by
  rw [getPoint, Dense.mem_items.1 h]
  rfl

theorem InRange.of_mem_items {s : Slot} {n : Nat} (h : s.InRange n) {item : Point × List Int}
    (hitem : item ∈ s.ids.items) {i : Int} (hi : i ∈ item.2) : 0 ≤ i ∧ i < n := by
  refine h item.1 i ?_
  rw [getPoint_of_mem_items hitem]
  exact hi

/-- The points of a slot with the units behind them, `x` outermost. -/
theorem items_ids (s : Slot) : s.ids.items = s.size.box.map fun p => (p, s.getPoint p) := by
  rw [Dense.items_eq, ← List.filterMap_eq_map]
  refine List.filterMap_congr fun p hp => ?_
  obtain ⟨ids, hids⟩ := Option.isSome_iff_exists.1 (Dense.get?_isSome (Point.mem_box.1 hp))
  simp only [getPoint, hids, Option.map_some, Option.getD_some, Function.comp_apply]

/-- What stands behind a point after all lists were changed in a way that keeps empty lists. -/
theorem getPoint_map_ids (s : Slot) (p : Point) {f : List Int → List Int} (hf : f [] = []) :
    ({ s with ids := s.ids.map f } : Slot).getPoint p = f (s.getPoint p) := by
  rw [getPoint, Dense.get?_map, getPoint]
  cases s.ids.get? p with
  | none => exact hf.symm
  | some ids => rfl

/-- Two ways to change all lists come to the same if they do so behind each point. -/
theorem map_ids_congr {s : Slot} {f g : List Int → List Int}
    (h : ∀ p, f (s.getPoint p) = g (s.getPoint p)) : s.ids.map f = s.ids.map g := by
  refine Dense.ext_get? rfl fun p => ?_
  rw [Dense.get?_map, Dense.get?_map]
  cases hp : s.ids.get? p with
  | none => rfl
  | some ids =>
      have hids := h p
      rw [getPoint, hp] at hids
      exact congrArg some hids

/-- All lists stay if the change keeps what stands behind each point. -/
theorem map_ids_eq_self {s : Slot} {f : List Int → List Int}
    (h : ∀ p, f (s.getPoint p) = s.getPoint p) : s.ids.map f = s.ids :=
  calc s.ids.map f = s.ids.map id := map_ids_congr h
    _ = s.ids := s.ids.map_id

/-- The indices of a slot are those behind its points. -/
theorem mem_flatten_values {s : Slot} {i : Int} :
    i ∈ s.ids.values.flatten ↔ ∃ p, i ∈ s.getPoint p := by
  simp only [List.mem_flatten, Dense.mem_values, getPoint]
  constructor
  · rintro ⟨ids, ⟨p, hp⟩, hi⟩
    exact ⟨p, by rw [hp]; exact hi⟩
  · rintro ⟨p, hi⟩
    cases hp : s.ids.get? p with
    | none => rw [hp] at hi; cases hi
    | some ids => rw [hp] at hi; exact ⟨ids, ⟨p, hp⟩, hi⟩

/-- Nothing is reported exactly about slots whose indices are in range. -/
theorem dangling?_eq_none_iff_inRange {s : Slot} {n : Nat} :
    Circuit.dangling? s n = none ↔ s.InRange n := by
  rw [Circuit.dangling?_eq_none_iff]
  simp only [mem_flatten_values, Circuit.isUnit, Bool.and_eq_true, decide_eq_true_eq]
  constructor
  · intro h p i hi
    exact h i ⟨p, hi⟩
  · rintro h i ⟨p, hi⟩
    exact h p i hi

end Slot

namespace Circuit

/-- The slots of a circuit address its units only. -/
def SlotsInRange (c : Circuit) : Prop := ∀ side, ∀ s ∈ c.slots side, s.InRange c.units.length

/-- The connections of the units of a circuit lead to its units only. -/
def WiresInRange (c : Circuit) : Prop :=
  ∀ e ∈ c.units, ∀ w ∈ e.wires, 0 ≤ w ∧ w < c.units.length

/-- No name is repeated exactly if the names are all different. -/
theorem isEmpty_repeated_iff {names : List String} :
    (Sorted.ofList Sorted.textLt (names.filter fun n => decide (1 < names.count n))).isEmpty = true
      ↔ names.Nodup := by
  have hempty (l : List String) : (Sorted.ofList Sorted.textLt l).isEmpty = true ↔ l = [] := by
    cases l with
    | nil => simp [Sorted.ofList]
    | cons a rest =>
        simp only [Sorted.ofList, List.foldr_cons, reduceCtorEq, iff_false]
        generalize rest.foldr (Sorted.insert Sorted.textLt) [] = sorted
        cases sorted with
        | nil => simp [Sorted.insert]
        | cons b sorted => unfold Sorted.insert; split <;> (try split) <;> simp
  rw [hempty, List.filter_eq_nil_iff, List.nodup_iff_count_le_one]
  simp only [decide_eq_true_eq, Nat.not_lt]
  constructor
  · intro h n
    by_cases hn : n ∈ names
    · exact h n hn
    · rw [List.count_eq_zero_of_not_mem hn]; exact Nat.zero_le _
  · intro h n _
    exact h n

/-- What the slots of a side have to fulfil. -/
theorem checkSlots_eq_ok_iff {side : Side} {slots : List Slot} {n : Nat} :
    checkSlots side slots n = .ok () ↔
      (slots.map Slot.name).Nodup ∧ ∀ s ∈ slots, s.InRange n := by
  unfold checkSlots
  simp only []
  split
  · rename_i hnames
    rw [isEmpty_repeated_iff] at hnames
    rw [Loop.forM_eq_ok_iff]
    simp only [hnames, true_and]
    constructor
    · intro h s hs
      have hs := h s hs
      rw [← Slot.dangling?_eq_none_iff_inRange]
      cases hd : dangling? s n with
      | none => rfl
      | some id => rw [hd] at hs; cases hs
    · intro h s hs
      rw [Slot.dangling?_eq_none_iff_inRange.2 (h s hs)]
  · rename_i hnames
    rw [isEmpty_repeated_iff] at hnames
    simp [hnames]

/-- The slots of a circuit that was built passed their check. -/
theorem checkSlots_of_build {units : List Element} {inputs outputs : List Slot} {c : Circuit}
    (h : build units inputs outputs = .ok c) (side : Side) :
    checkSlots side (c.slots side) c.units.length = .ok () := by
  obtain ⟨hunits, hinputs, houtputs, _⟩ := build_eq_ok h
  obtain ⟨⟨⟩, hin, h⟩ := Fault.bind_eq_ok_iff.1 h
  obtain ⟨⟨⟩, hout, _⟩ := Fault.bind_eq_ok_iff.1 h
  rw [hunits]
  cases side with
  | input => rw [slots, hinputs]; exact hin
  | output => rw [slots, houtputs]; exact hout

/-- **The slots of a circuit that was built are in range.** -/
theorem slotsInRange_of_build {units : List Element} {inputs outputs : List Slot} {c : Circuit}
    (h : build units inputs outputs = .ok c) : c.SlotsInRange :=
  fun side => (checkSlots_eq_ok_iff.1 (checkSlots_of_build h side)).2

/-- No two slots of a side of a circuit that was built have the same name. -/
theorem nodup_names_of_build {units : List Element} {inputs outputs : List Slot} {c : Circuit}
    (h : build units inputs outputs = .ok c) (side : Side) :
    ((c.slots side).map Slot.name).Nodup :=
  (checkSlots_eq_ok_iff.1 (checkSlots_of_build h side)).1

/-- Different names on each side, slots in range and a bounding box are all it takes to build a
circuit. -/
theorem exists_build {units : List Element} {inputs outputs : List Slot}
    (hin : (inputs.map Slot.name).Nodup) (hout : (outputs.map Slot.name).Nodup)
    (hinputs : ∀ s ∈ inputs, s.InRange units.length)
    (houtputs : ∀ s ∈ outputs, s.InRange units.length)
    (hbox : ∃ box, boundingBox units = .ok box) :
    ∃ bounds, build units inputs outputs = .ok ⟨units, inputs, outputs, bounds⟩ := by
  obtain ⟨box, hbox⟩ := hbox
  refine ⟨box.2, Fault.bind_eq_ok_iff.2 ⟨(), checkSlots_eq_ok_iff.2 ⟨hin, hinputs⟩, ?_⟩⟩
  refine Fault.bind_eq_ok_iff.2 ⟨(), checkSlots_eq_ok_iff.2 ⟨hout, houtputs⟩, ?_⟩
  exact Fault.bind_eq_ok_iff.2 ⟨box, hbox, rfl⟩

end Circuit

end Breadboard
