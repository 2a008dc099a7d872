import Breadboard.Proofs.Grid.Box
import Breadboard.Wiring.Frame

/-!
**Points that agree off the marked axes.**

A wiring along marked axes proposes every point of its first box with all points that agree with it
on the other axes, and some of these lie outside the second box.  What counts are the pairs inside
their sectors and slots.  These are all the pairs of points inside that agree, in lexicographic
order.  So a wiring with no marked axis does the same as the one to one wiring, which proposes only
pairs inside both boxes.

Main definitions:

* `Wiring.Agree` — points that agree off the marked axes.

Main results:

* `Wiring.mem_dimPairs`, `Wiring.pairwise_dimPairs` — what is proposed along marked axes, and in
  which order;
* `Frame.pairwise_liftPairs` — lifting keeps the order of the pairs;
* `Frame.liftPairs_dim` — **the lifted pairs along marked axes**.
-/

set_option autoImplicit false
set_option relaxedAutoImplicit false

namespace Breadboard

namespace Point

/-- Moving two points keeps their order. -/
theorem before_add {p q : Point} (corner : Point) :
    (p + corner).before (q + corner) = true ↔ p.before q = true := by
  simp only [before_iff, add_x, add_y, add_z]
  omega

theorem isInside_meet {p a b : Point} :
    p.isInside (a.meet b) = true ↔ p.isInside a = true ∧ p.isInside b = true := by
  simp only [isInside_iff, meet]
  omega

end Point

namespace Wiring

/-! ### Proposed pairs -/

/-- The points have the same coordinate on each axis that is not marked. -/
def Agree (x y z : Bool) (p q : Point) : Prop :=
  (x = false → q.x = p.x) ∧ (y = false → q.y = p.y) ∧ (z = false → q.z = p.z)

theorem mem_dimRange {marked : Bool} {coordinate extent v : Int} :
    v ∈ dimRange marked coordinate extent
      ↔ if marked then 0 ≤ v ∧ v < extent else v = coordinate := by
  cases marked with
  | true => exact Point.mem_below
  | false => exact List.mem_singleton

theorem pairwise_dimRange (marked : Bool) (coordinate extent : Int) :
    (dimRange marked coordinate extent).Pairwise (· < ·) := by
  cases marked with
  | true => exact Point.pairwise_below extent
  | false => exact List.pairwise_singleton _ _

theorem dimPairs_eq (x y z : Bool) (start stop : Point) :
    dimPairs x y z start stop = start.box.flatMap fun p =>
      (Point.product (dimRange x p.x stop.x) (dimRange y p.y stop.y) (dimRange z p.z stop.z)).map
        fun q => (p, q) := by
  simp only [dimPairs, Point.product, List.map_flatMap, List.map_map, Function.comp_def]

/-- A coordinate on a marked axis is inside, and any other one is copied. -/
theorem mem_dimPairs {x y z : Bool} {start stop p q : Point} :
    (p, q) ∈ dimPairs x y z start stop ↔ p.isInside start = true ∧ Agree x y z p q
      ∧ (x = true → 0 ≤ q.x ∧ q.x < stop.x) ∧ (y = true → 0 ≤ q.y ∧ q.y < stop.y)
      ∧ (z = true → 0 ≤ q.z ∧ q.z < stop.z) := by
  rw [dimPairs_eq]
  simp only [List.mem_flatMap, List.mem_map, Prod.mk.injEq, Point.mem_box, Point.mem_product,
    mem_dimRange]
  constructor
  · rintro ⟨p', hp, q', ⟨hx, hy, hz⟩, rfl, rfl⟩
    refine ⟨hp, ?_⟩
    cases x <;> cases y <;> cases z <;> simp_all [Agree]
  · rintro ⟨hp, hagree, hinside⟩
    refine ⟨p, hp, q, ?_, rfl, rfl⟩
    cases x <;> cases y <;> cases z <;> simp_all [Agree]

/-- Along marked axes an increasing list of pairs is proposed. -/
theorem pairwise_dimPairs (x y z : Bool) (start stop : Point) :
    (dimPairs x y z start stop).Pairwise fun a b => Pair.before a b = true := by
  rw [dimPairs_eq, List.pairwise_flatMap]
  constructor
  · intro p _
    rw [List.pairwise_map]
    have hends := Point.pairwise_product (pairwise_dimRange x p.x stop.x)
      (pairwise_dimRange y p.y stop.y) (pairwise_dimRange z p.z stop.z)
    refine hends.imp fun h => ?_
    exact Pair.before_iff.2 (.inr ⟨rfl, h⟩)
  · refine (Point.pairwise_box start).imp fun h a ha b hb => ?_
    obtain ⟨q, _, rfl⟩ := List.mem_map.1 ha
    obtain ⟨q', _, rfl⟩ := List.mem_map.1 hb
    exact Pair.before_iff.2 (.inl h)

theorem mem_straightPairs {start stop p q : Point} :
    (p, q) ∈ straightPairs start stop
      ↔ p = q ∧ p.isInside start = true ∧ p.isInside stop = true := by
  simp only [straightPairs, List.mem_map, Point.mem_box, Point.isInside_meet, Prod.mk.injEq]
  constructor
  · rintro ⟨r, hr, rfl, rfl⟩
    exact ⟨rfl, hr⟩
  · rintro ⟨rfl, hp⟩
    exact ⟨p, hp, rfl, rfl⟩

theorem pairwise_straightPairs (start stop : Point) :
    (straightPairs start stop).Pairwise fun a b => Pair.before a b = true := by
  rw [straightPairs, List.pairwise_map]
  exact (Point.pairwise_box _).imp fun h => Pair.before_iff.2 (.inl h)

/-- Points that agree on all axes are the same. -/
theorem agree_all {p q : Point} : Agree false false false p q ↔ p = q := by
  simp [Agree, Point.ext_iff, eq_comm]

/-- With no marked axis a one to one wiring is proposed, whose ends may lie outside. -/
theorem dimPairs_eq_straightPairs_iff {start stop : Point} :
    dimPairs false false false start stop = straightPairs start stop
      ↔ ∀ p : Point, p.isInside start = true → p.isInside stop = true := by
  constructor
  · intro h p hp
    have hmem : (p, p) ∈ dimPairs false false false start stop :=
      mem_dimPairs.2 ⟨hp, agree_all.2 rfl, nofun, nofun, nofun⟩
    rw [h] at hmem
    exact (mem_straightPairs.1 hmem).2.2
  · intro h
    refine Sorted.eq_of_mem_iff Pair.isOrder_before (pairwise_dimPairs _ _ _ _ _)
      (pairwise_straightPairs _ _) fun (p, q) => ?_
    rw [mem_dimPairs, mem_straightPairs, agree_all]
    constructor
    · rintro ⟨hp, rfl, _⟩
      exact ⟨rfl, hp, h p hp⟩
    · rintro ⟨rfl, hp, _⟩
      exact ⟨hp, rfl, nofun, nofun, nofun⟩

end Wiring

namespace Frame

/-! ### Lifted pairs -/

/-- A point and its lift come one after the other together. -/
theorem before_of_lift? {f : Frame} {p q p' q' : Point} (hp : f.lift? p = some p')
    (hq : f.lift? q = some q') : p'.before q' = true ↔ p.before q = true := by
  obtain ⟨_, _, rfl⟩ := lift?_eq_some_iff.1 hp
  obtain ⟨_, _, rfl⟩ := lift?_eq_some_iff.1 hq
  exact Point.before_add f.corner

/-- Lifting keeps the order of the pairs. -/
theorem pairwise_liftPairs {start stop : Frame} {proposed : List Pair}
    (h : proposed.Pairwise fun a b => Pair.before a b = true) :
    (liftPairs start stop proposed).Pairwise fun a b => Pair.before a b = true := by
  rw [liftPairs, List.pairwise_filterMap]
  refine h.imp fun {a b} hab s hs t ht => ?_
  simp only [bind, Option.bind_eq_some_iff, pure, Option.some.injEq] at hs ht
  obtain ⟨p, hp, q, hq, rfl⟩ := hs
  obtain ⟨p', hp', q', hq', rfl⟩ := ht
  rcases Pair.before_iff.1 hab with hfirst | ⟨hsame, hsecond⟩
  · exact Pair.before_iff.2 (.inl ((before_of_lift? hp hp').2 hfirst))
  · rw [hsame, hp'] at hp
    exact Pair.before_iff.2 (.inr ⟨(Option.some.inj hp).symm, (before_of_lift? hq hq').2 hsecond⟩)

/-- The lifted pairs along marked axes are those of all points inside that agree. -/
theorem mem_liftPairs_dimPairs {x y z : Bool} {start stop : Frame} {s e : Point} :
    (s, e) ∈ liftPairs start stop (Wiring.dimPairs x y z start.size stop.size)
      ↔ ∃ p q, Wiring.Agree x y z p q ∧ start.lift? p = some s ∧ stop.lift? q = some e := by
  rw [mem_liftPairs]
  constructor
  · rintro ⟨p, q, hpq, hs, he⟩
    exact ⟨p, q, (Wiring.mem_dimPairs.1 hpq).2.1, hs, he⟩
  · rintro ⟨p, q, hagree, hs, he⟩
    refine ⟨p, q, ?_, hs, he⟩
    have hp := (lift?_eq_some_iff.1 hs).1
    obtain ⟨hx, hy, hz⟩ := Point.isInside_iff.1 (lift?_eq_some_iff.1 he).1
    exact Wiring.mem_dimPairs.2 ⟨hp, hagree, fun _ => hx, fun _ => hy, fun _ => hz⟩

/-- With no marked axis the lifted pairs are those of the one to one wiring. -/
theorem liftPairs_dimPairs_eq (start stop : Frame) :
    liftPairs start stop (Wiring.dimPairs false false false start.size stop.size)
      = liftPairs start stop (Wiring.straightPairs start.size stop.size) := by
  refine Sorted.eq_of_mem_iff Pair.isOrder_before
    (pairwise_liftPairs (Wiring.pairwise_dimPairs _ _ _ _ _))
    (pairwise_liftPairs (Wiring.pairwise_straightPairs _ _)) fun (s, e) => ?_
  rw [mem_liftPairs_dimPairs, mem_liftPairs]
  constructor
  · rintro ⟨p, q, hagree, hs, he⟩
    obtain rfl := Wiring.agree_all.1 hagree
    have hstart := (lift?_eq_some_iff.1 hs).1
    have hstop := (lift?_eq_some_iff.1 he).1
    exact ⟨p, p, Wiring.mem_straightPairs.2 ⟨rfl, hstart, hstop⟩, hs, he⟩
  · rintro ⟨p, q, hpq, hs, he⟩
    exact ⟨p, q, Wiring.agree_all.2 (Wiring.mem_straightPairs.1 hpq).1, hs, he⟩

/-- **The lifted pairs along marked axes**, for sectors of all sizes and at all corners.  They are
listed in lexicographic order and without repeats, and they are those of all points inside the
sectors that agree off the marked axes and that lie inside the slots when moved by the corners.
With no marked axis they are those of the one to one wiring, pair by pair, although this proposes
fewer pairs as soon as the first sector has a point that the second one does not have. -/
theorem liftPairs_dim (start stop : Frame) :
    (∀ x y z : Bool, ∃ proposed,
      (Wiring.dim x y z).pairs start.size stop.size = .ok proposed
        ∧ (liftPairs start stop proposed).Pairwise (fun a b => Pair.before a b = true)
        ∧ (liftPairs start stop proposed).Nodup
        ∧ ∀ a b : Point, (a, b) ∈ liftPairs start stop proposed ↔
            ∃ p q : Point, p.isInside start.size = true ∧ q.isInside stop.size = true
              ∧ Wiring.Agree x y z p q
              ∧ a = p + start.corner ∧ a.isInside start.slotSize = true
              ∧ b = q + stop.corner ∧ b.isInside stop.slotSize = true)
      ∧ ∃ copied equal,
          (Wiring.dim false false false).pairs start.size stop.size = .ok copied
            ∧ Wiring.straight.pairs start.size stop.size = .ok equal
            ∧ liftPairs start stop copied = liftPairs start stop equal
            ∧ (copied = equal
                ↔ ∀ p : Point, p.isInside start.size = true → p.isInside stop.size = true) := by
  refine ⟨fun x y z => ⟨_, by rw [Wiring.pairs], ?_, ?_, fun a b => ?_⟩, _, _, by rw [Wiring.pairs],
    by rw [Wiring.pairs], liftPairs_dimPairs_eq start stop, Wiring.dimPairs_eq_straightPairs_iff⟩
  · exact pairwise_liftPairs (Wiring.pairwise_dimPairs _ _ _ _ _)
  · refine (pairwise_liftPairs (Wiring.pairwise_dimPairs _ _ _ _ _)).imp fun {a b} h => ?_
    rintro rfl
    rw [Pair.isOrder_before.irrefl] at h
    cases h
  · rw [mem_liftPairs_dimPairs]
    simp only [lift?_eq_some_iff]
    constructor
    · rintro ⟨p, q, hagree, ⟨hp, hslot, rfl⟩, hq, hslot', rfl⟩
      exact ⟨p, q, hp, hq, hagree, rfl, hslot, rfl, hslot'⟩
    · rintro ⟨p, q, hp, hq, hagree, rfl, hslot, rfl, hslot'⟩
      exact ⟨p, q, hagree, ⟨hp, hslot, rfl⟩, hq, hslot', rfl⟩

/-- The first point of the sector is moved out of the slot, and so it counts for nothing. -/
example : liftPairs ⟨⟨-1, 0, 0⟩, ⟨3, 1, 1⟩, ⟨4, 1, 1⟩⟩ ⟨⟨0, 2, 0⟩, ⟨2, 1, 1⟩, ⟨2, 4, 1⟩⟩
      (Wiring.dimPairs true false false ⟨3, 1, 1⟩ ⟨2, 1, 1⟩)
    = [(⟨0, 0, 0⟩, ⟨0, 2, 0⟩), (⟨0, 0, 0⟩, ⟨1, 2, 0⟩), (⟨1, 0, 0⟩, ⟨0, 2, 0⟩),
      (⟨1, 0, 0⟩, ⟨1, 2, 0⟩)] := by
  decide

end Frame

end Breadboard
