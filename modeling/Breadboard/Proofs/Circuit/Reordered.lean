import Breadboard.Proofs.Circuit.InRange
import Mathlib.Data.Set.Function
import Mathlib.Order.Interval.Set.Basic

/-!
**Circuits whose units stand in another order.**

The same circuit may be built with its units in two orders.  Then every reference of one is that of
the other under a bijection of the numbers, and whether a circuit can be built at all does not
depend on the order.

Main definitions:

* `Fault.Alike`, `Agree` — attempts that fail in the same way, or succeed with related results;
* `Renumbering.along` — a reference after the units were given other numbers;
* `Circuit.Reorders` — a circuit whose units stand in another order.

Main results:

* `Agree.bind` — two steps in a row agree if each of them does;
* `Circuit.agree_build` — **whether a circuit is built does not depend on the order of its units**.
-/

set_option autoImplicit false
set_option relaxedAutoImplicit false

namespace Breadboard

/-! ### Attempts that agree -/

/-- Causes of failure of the same kind.  What they tell may differ in the order or in the numbers of
what they list. -/
inductive Fault.Alike : Fault → Fault → Prop where
  | refl (fault : Fault) : Alike fault fault
  | unplaced {names names' : List (String × PlacementGap)} (h : names.Perm names') :
      Alike (.unplaced names) (.unplaced names')
  | fanOut {inputs inputs' outputs outputs' : List String} {limit : Int}
      {found found' : List (Nat × Nat)} (hin : inputs.Perm inputs') (hout : outputs.Perm outputs')
      (hfound : found.length = found'.length) :
      Alike (.fanOut inputs outputs limit found) (.fanOut inputs' outputs' limit found')

/-- Two attempts fail alike, or they succeed with related results. -/
inductive Agree {α β : Type} (R : α → β → Prop) : Except Fault α → Except Fault β → Prop where
  | ok {a : α} {b : β} (h : R a b) : Agree R (.ok a) (.ok b)
  | error {fault fault' : Fault} (h : fault.Alike fault') : Agree R (.error fault) (.error fault')

namespace Agree

variable {α β γ δ : Type} {R : α → β → Prop} {S : γ → δ → Prop}

/-- Two steps in a row agree if each of them does. -/
theorem bind {x : Except Fault α} {y : Except Fault β} {f : α → Except Fault γ}
    {g : β → Except Fault δ} (h : Agree R x y)
    (hnext : ∀ a b, x = .ok a → y = .ok b → R a b → Agree S (f a) (g b)) :
    Agree S (x >>= f) (y >>= g) := by
  cases h with
  | ok hab => exact hnext _ _ rfl rfl hab
  | error halike => exact .error halike

/-- Attempts agree if one result is a function of the other. -/
theorem of_map {x : Except Fault α} {φ : α → β} : Agree (fun a b => b = φ a) x (φ <$> x) := by
  cases x with
  | ok a => exact .ok rfl
  | error fault => exact .error (.refl fault)

end Agree

namespace Renumbering

/-- A reference after the units were given other numbers. -/
def along (π : Nat → Nat) (i : Int) : Int := π i.toNat

theorem along_natCast (π : Nat → Nat) (i : Nat) : along π i = π i := by
  rw [along, Int.toNat_natCast]

/-- References in range stay in range. -/
theorem along_inRange {π : Nat → Nat} {n : Nat} (hmaps : ∀ i < n, π i < n) {i : Int} (h0 : 0 ≤ i)
    (h : i < n) : 0 ≤ along π i ∧ along π i < n := by
  have hlt := hmaps i.toNat (by omega)
  rw [along]
  omega

/-- Different references in range stay different. -/
theorem along_inj {π : Nat → Nat} {n : Nat} (hinj : Set.InjOn π (Set.Iio n)) {i j : Int}
    (hi : 0 ≤ i ∧ i < n) (hj : 0 ≤ j ∧ j < n) : along π i = along π j ↔ i = j := by
  constructor
  · intro e
    rw [along, along, Int.natCast_inj] at e
    have hij := hinj (Set.mem_Iio.2 (by omega : i.toNat < n))
      (Set.mem_Iio.2 (by omega : j.toNat < n)) e
    omega
  · rintro rfl
    rfl

end Renumbering

namespace Slot

/-- A slot after the units were given other numbers. -/
def along (π : Nat → Nat) (s : Slot) : Slot :=
  { s with ids := s.ids.map fun ids => ids.map (Renumbering.along π) }

theorem getPoint_along (π : Nat → Nat) (s : Slot) (p : Point) :
    (s.along π).getPoint p = (s.getPoint p).map (Renumbering.along π) :=
  s.getPoint_map_ids p rfl

theorem inRange_along {π : Nat → Nat} {n : Nat} (hmaps : ∀ i < n, π i < n) {s : Slot}
    (h : s.InRange n) : (s.along π).InRange n := by
  intro p i hi
  rw [getPoint_along] at hi
  obtain ⟨j, hj, rfl⟩ := List.mem_map.1 hi
  exact Renumbering.along_inRange hmaps (h p j hj).1 (h p j hj).2

end Slot

/-- A unit after the units were given other numbers. -/
def Element.along (π : Nat → Nat) (e : Element) : Element :=
  { e with wires := e.wires.map (Renumbering.along π) }

namespace Circuit

/-- The units of a list stand in another order in the other list. -/
structure ReordersUnits (π : Nat → Nat) (units units' : List Element) : Prop where
  length_eq : units'.length = units.length
  getElem?_eq : ∀ i < units.length, units'[π i]? = units[i]?.map (Element.along π)

/-- A circuit is another one with its units in another order: the unit `i` of one is the unit `π i`
of the other, up to its place in the list the same, and the slots of both are the same up to the
numbers of the units behind their points. -/
structure Reorders (π : Nat → Nat) (c c' : Circuit) : Prop where
  units : ReordersUnits π c.units c'.units
  inputs : c'.inputs = c.inputs.map (Slot.along π)
  outputs : c'.outputs = c.outputs.map (Slot.along π)

/-! ### Building -/

/-- Slots in range are refused only if a name is repeated. -/
theorem checkSlots_along {π : Nat → Nat} {n : Nat} (hmaps : ∀ i < n, π i < n) (side : Side)
    {slots : List Slot} (h : ∀ s ∈ slots, s.InRange n) :
    checkSlots side (slots.map (Slot.along π)) n = checkSlots side slots n := by
  have hnames : (slots.map (Slot.along π)).map Slot.name = slots.map Slot.name := by
    rw [List.map_map]
    rfl
  have hslots : ∀ s ∈ slots.map (Slot.along π), s.InRange n := by
    intro s hs
    obtain ⟨t, ht, rfl⟩ := List.mem_map.1 hs
    exact Slot.inRange_along hmaps (h t ht)
  by_cases hnodup : (slots.map Slot.name).Nodup
  · rw [checkSlots_eq_ok_iff.2 ⟨hnodup, h⟩, checkSlots_eq_ok_iff.2 ⟨hnames.symm ▸ hnodup, hslots⟩]
  · have hrepeated := mt isEmpty_repeated_iff.1 hnodup
    simp only [checkSlots, hnames, if_neg hrepeated]

/-- Whether there is a bounding box does not depend on the order of the units. -/
theorem agree_boundingBox {units units' : List Element}
    (hparts : ∀ e ∈ units', ∃ u ∈ units, e.part = u.part)
    (hparts' : ∀ e ∈ units, ∃ u ∈ units', e.part = u.part) :
    Agree (fun _ _ => True) (boundingBox units) (boundingBox units') := by
  cases h : boundingBox units with
  | ok box =>
      obtain ⟨box', h'⟩ := boundingBox_isOk_of_parts hparts ⟨box, h⟩
      rw [h']
      exact .ok trivial
  | error fault =>
      cases h' : boundingBox units' with
      | ok box' =>
          obtain ⟨box, hbox⟩ := boundingBox_isOk_of_parts hparts' ⟨box', h'⟩
          rw [h] at hbox
          cases hbox
      | error fault' =>
          rw [fault_of_boundingBox h, fault_of_boundingBox h']
          exact .error (.refl _)

/-- Units that stand in another order have the same parts. -/
theorem ReordersUnits.part_eq {π : Nat → Nat} {units units' : List Element}
    (hπ : Set.BijOn π (Set.Iio units.length) (Set.Iio units.length))
    (h : ReordersUnits π units units') :
    (∀ e ∈ units', ∃ u ∈ units, e.part = u.part) ∧ ∀ e ∈ units, ∃ u ∈ units', e.part = u.part := by
  constructor
  · intro e he
    obtain ⟨j, hj, rfl⟩ := List.getElem_of_mem he
    obtain ⟨i, hi, rfl⟩ := hπ.surjOn (Set.mem_Iio.2 (h.length_eq ▸ hj))
    have hget := h.getElem?_eq i hi
    rw [List.getElem?_eq_getElem hj, List.getElem?_eq_getElem hi, Option.map_some,
      Option.some_inj] at hget
    exact ⟨_, List.getElem_mem hi, by rw [hget]; rfl⟩
  · intro e he
    obtain ⟨i, hi, rfl⟩ := List.getElem_of_mem he
    have hget := h.getElem?_eq i hi
    rw [List.getElem?_eq_getElem hi, Option.map_some] at hget
    exact ⟨_, List.mem_of_getElem? hget, rfl⟩

/-- **Whether a circuit is built does not depend on the order of its units.** -/
theorem agree_build {π : Nat → Nat} {units units' : List Element} {inputs outputs : List Slot}
    (hπ : Set.BijOn π (Set.Iio units.length) (Set.Iio units.length))
    (hunits : ReordersUnits π units units') (hin : ∀ s ∈ inputs, s.InRange units.length)
    (hout : ∀ s ∈ outputs, s.InRange units.length) :
    Agree (Reorders π) (build units inputs outputs)
      (build units' (inputs.map (Slot.along π)) (outputs.map (Slot.along π))) := by
  have hmaps : ∀ i < units.length, π i < units.length := fun i hi => hπ.mapsTo hi
  obtain ⟨hparts, hparts'⟩ := hunits.part_eq hπ
  unfold build
  rw [hunits.length_eq, checkSlots_along hmaps .input hin, checkSlots_along hmaps .output hout]
  cases checkSlots .input inputs units.length with
  | error fault => exact .error (.refl fault)
  | ok _ =>
      cases checkSlots .output outputs units.length with
      | error fault => exact .error (.refl fault)
      | ok _ =>
          exact (agree_boundingBox hparts hparts').bind fun box box' _ _ _ =>
            .ok ⟨hunits, rfl, rfl⟩

end Circuit

end Breadboard
