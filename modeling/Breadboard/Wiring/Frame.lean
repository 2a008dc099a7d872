import Breadboard.Wiring.Basic

/-!
**Pairs inside sectors.**

A wiring proposes pairs of points of two sectors.  A pair counts if each point lies in its sector
and, moved by the sector's corner, in the slot.

Main definitions:

* `Frame` — a sector inside a slot, as far as pairs of points need it;
* `Frame.lift?` — a point of the sector as a point of the slot;
* `Frame.liftPairs` — the pairs that count, as points of the slots.
-/

set_option autoImplicit false
set_option relaxedAutoImplicit false

namespace Breadboard

/-- A sector inside a slot. -/
structure Frame where
  corner : Point
  size : Point
  slotSize : Point
  deriving DecidableEq, Inhabited

namespace Frame

/-- A point of the sector as a point of the slot; it has to lie in both. -/
def lift? (f : Frame) (p : Point) : Option Point :=
  if p.isInside f.size && (p + f.corner).isInside f.slotSize then some (p + f.corner) else none

/-- The pairs both of whose points lie in their sectors and slots, as points of the slots. -/
def liftPairs (start stop : Frame) (proposed : List Pair) : List Pair :=
  proposed.filterMap fun pair => do
    let s ← start.lift? pair.1
    let e ← stop.lift? pair.2
    pure (s, e)

theorem lift?_eq_some_iff {f : Frame} {p q : Point} :
    f.lift? p = some q ↔
      p.isInside f.size = true ∧ (p + f.corner).isInside f.slotSize = true ∧ p + f.corner = q := by
  simp [lift?, and_assoc]

/-- The pairs that count are the lifted ones. -/
theorem mem_liftPairs {start stop : Frame} {proposed : List Pair} {s e : Point} :
    (s, e) ∈ liftPairs start stop proposed ↔
      ∃ p q, (p, q) ∈ proposed ∧ start.lift? p = some s ∧ stop.lift? q = some e := by
  simp only [liftPairs, List.mem_filterMap, bind, Option.bind_eq_some_iff, pure, Option.some.injEq,
    Prod.mk.injEq, Prod.exists]
  constructor
  · rintro ⟨p, q, hpq, a, ha, b, hb, rfl, rfl⟩
    exact ⟨p, q, hpq, ha, hb⟩
  · rintro ⟨p, q, hpq, ha, hb⟩
    exact ⟨p, q, hpq, s, ha, e, hb, rfl, rfl⟩

end Frame

end Breadboard
