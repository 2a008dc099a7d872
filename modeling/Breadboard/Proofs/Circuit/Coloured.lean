import Breadboard.Proofs.Circuit.Records
import Breadboard.Proofs.Grid.Box
import Mathlib.Data.List.Induction

/-!
**The colours of a document.**

The slots of a circuit are gone through point by point, inputs first, and every point puts its
colour on the units behind it that have none of their own.  So what counts for a unit is the last
point that addresses it, and a point of an output slot comes after all points of input slots.  Which
point is the last is said by the order of the slots and of the points alone, and found in the
strokes by induction on the points that were gone through.

Main definitions:

* `SlotPoint`, `SlotPoint.Before` — the points of the slots of a side, and their order;
* `Circuit.Addresses`, `Circuit.AddressedLast` — the points that address a unit, and the last one;
* `Circuit.Coloured` — **the colour of a unit**.

Main results:

* `Circuit.strokesOf_eq` — the strokes of a side, point by point;
* `Circuit.lastStroke?_drawn` — the last stroke on a unit is that of the last point;
* `Circuit.Coloured.unique` — a unit has one colour;
* `Circuit.coloured_records` — **a document shows every unit in its colour**.
-/

set_option autoImplicit false
set_option relaxedAutoImplicit false

namespace Breadboard

/-- The palette with a colour for each slot and each point. -/
def Palette.ofFunctions (input output : Int → Point → String) : Palette where
  input number p := .ok (input number p)
  output number p := .ok (output number p)

/-- A point of a slot, which is given by its number on its side. -/
structure SlotPoint where
  slot : Nat
  point : Point
  deriving DecidableEq

namespace SlotPoint

/-- The order by slots, and by the order of points in one slot. -/
def Before (a b : SlotPoint) : Prop :=
  a.slot < b.slot ∨ (a.slot = b.slot ∧ a.point.before b.point = true)

theorem Before.asymm {a b : SlotPoint} (h : a.Before b) : ¬b.Before a := by
  rintro (k | ⟨e, k⟩) <;> rcases h with h | ⟨e', h⟩
  · omega
  · omega
  · omega
  · rw [Point.isOrder_before.asymm _ _ h] at k
    cases k

end SlotPoint

namespace Circuit

/-! ### The last point that addresses a unit -/

/-- The unit is one of those behind the point. -/
def Addresses (slots : List Slot) (a : SlotPoint) (i : Int) : Prop :=
  ∃ s, slots[a.slot]? = some s ∧ i ∈ s.getPoint a.point

/-- The point is the last one that addresses the unit. -/
structure AddressedLast (slots : List Slot) (i : Int) (a : SlotPoint) : Prop where
  addresses : Addresses slots a i
  last : ∀ b, Addresses slots b i → b = a ∨ b.Before a

theorem AddressedLast.unique {slots : List Slot} {i : Int} {a b : SlotPoint}
    (ha : AddressedLast slots i a) (hb : AddressedLast slots i b) : a = b := by
  rcases ha.last b hb.addresses with h | h
  · exact h.symm
  · rcases hb.last a ha.addresses with h' | h'
    · exact h'
    · exact absurd h' h.asymm

/-- The points of the slots of a side in order, with the units behind them. -/
def listing (slots : List Slot) : List (SlotPoint × List Int) :=
  slots.zipIdx.flatMap fun (s, number) => s.size.box.map fun p => (⟨number, p⟩, s.getPoint p)

theorem mem_listing {slots : List Slot} {a : SlotPoint} {ids : List Int} :
    (a, ids) ∈ listing slots
      ↔ ∃ s, slots[a.slot]? = some s ∧ a.point.isInside s.size = true
        ∧ s.getPoint a.point = ids := by
  simp only [listing, List.mem_flatMap, List.mem_map, Prod.mk.injEq, Prod.exists,
    List.mem_zipIdx_iff_getElem?, Point.mem_box]
  constructor
  · rintro ⟨s, number, hs, p, hp, rfl, hids⟩
    exact ⟨s, hs, hp, hids⟩
  · rintro ⟨s, hs, hp, hids⟩
    exact ⟨s, a.slot, hs, a.point, hp, rfl, hids⟩

/-- No unit stands behind a point outside. -/
theorem addresses_iff {slots : List Slot} {a : SlotPoint} {i : Int} :
    Addresses slots a i ↔ ∃ ids, (a, ids) ∈ listing slots ∧ i ∈ ids := by
  simp only [mem_listing]
  constructor
  · rintro ⟨s, hs, hi⟩
    refine ⟨_, ⟨s, hs, ?_, rfl⟩, hi⟩
    cases hp : a.point.isInside s.ids.size with
    | true => exact hp
    | false => rw [Slot.getPoint, Dense.get?_eq_none hp] at hi; cases hi
  · rintro ⟨_, ⟨s, hs, _, rfl⟩, hi⟩
    exact ⟨s, hs, hi⟩

/-- The points are listed in their order. -/
theorem pairwise_listing (slots : List Slot) :
    (listing slots).Pairwise fun x y => x.1.Before y.1 := by
  have hnumbers : slots.zipIdx.Pairwise fun x y => x.2 < y.2 := by
    rw [← List.pairwise_map (f := Prod.snd), List.zipIdx_map_snd]
    exact List.pairwise_lt_range'
  refine List.pairwise_flatMap.2 ⟨fun x _ => ?_, hnumbers.imp fun h a ha b hb => ?_⟩
  · rw [List.pairwise_map]
    exact (Point.pairwise_box _).imp fun h => .inr ⟨rfl, h⟩
  · obtain ⟨_, _, rfl⟩ := List.mem_map.1 ha
    obtain ⟨_, _, rfl⟩ := List.mem_map.1 hb
    exact .inl h

/-! ### Strokes point by point -/

/-- The unit exists and has no colour of its own. -/
def isBare (units : List Element) (i : Int) : Bool :=
  (Index.get? units i).any fun e => e.color.isNone

/-- The strokes of one point. -/
def strokesAt (units : List Element) (color : Int → Point → String)
    (x : SlotPoint × List Int) : List Stroke :=
  (x.2.filter (isBare units)).map fun i => (i, color x.1.slot x.1.point)

/-- The strokes of listed points. -/
def drawn (units : List Element) (color : Int → Point → String)
    (points : List (SlotPoint × List Int)) : List Stroke :=
  points.flatMap (strokesAt units color)

theorem mem_strokesAt {units : List Element} {color : Int → Point → String}
    {x : SlotPoint × List Int} {i : Int} {shade : String} :
    (i, shade) ∈ strokesAt units color x
      ↔ (i ∈ x.2 ∧ isBare units i = true) ∧ color x.1.slot x.1.point = shade := by
  simp only [strokesAt, List.mem_map, List.mem_filter, Prod.mk.injEq]
  constructor
  · rintro ⟨j, hj, rfl, hshade⟩
    exact ⟨hj, hshade⟩
  · rintro ⟨hi, hshade⟩
    exact ⟨i, hi, rfl, hshade⟩

/-- What is collected from the entries of a list, if it is known what there is from each. -/
theorem flatten_mapM_eq {α β : Type} {f : α → Except Fault (List β)} {g : α → List β} {l : List α}
    (h : ∀ a ∈ l, f a = .ok (g a)) :
    (do let found ← l.mapM f; pure found.flatten) = Except.ok (ε := Fault) (l.flatMap g) := by
  rw [Loop.mapM_eq_map h, List.flatMap_def]
  rfl

/-- The strokes of one point are put on the units without a colour, one after the other. -/
theorem flatMap_eq_strokesAt (units : List Element) (color : Int → Point → String)
    (x : SlotPoint × List Int) :
    (x.2.flatMap fun i => if isBare units i then [(i, color x.1.slot x.1.point)] else [])
      = strokesAt units color x := by
  obtain ⟨a, ids⟩ := x
  simp only [strokesAt]
  induction ids with
  | nil => rfl
  | cons i rest ih =>
      rw [List.flatMap_cons, ih, List.filter_cons]
      split <;> rfl

/-- **The strokes of a side, point by point.** -/
theorem strokesOf_eq {units : List Element} (color : Int → Point → String) {slots : List Slot}
    (hslots : ∀ s ∈ slots, s.InRange units.length) :
    strokesOf units (fun number p => .ok (color number p)) slots
      = .ok (drawn units color (listing slots)) := by
  have hdrawn : drawn units color (listing slots) = slots.zipIdx.flatMap fun x =>
      x.1.ids.items.flatMap fun y => strokesAt units color (⟨x.2, y.1⟩, y.2) := by
    rw [drawn, listing, List.flatMap_assoc]
    refine List.flatMap_congr ?_
    rintro ⟨s, number⟩ _
    simp only [Slot.items_ids, List.flatMap_map]
  rw [hdrawn]
  refine flatten_mapM_eq ?_
  rintro ⟨s, number⟩ hs
  refine flatten_mapM_eq ?_
  rintro ⟨p, ids⟩ hitem
  simp only [← flatMap_eq_strokesAt]
  refine flatten_mapM_eq ?_
  intro i hi
  obtain ⟨h0, hlt⟩ := (hslots s (List.fst_mem_of_mem_zipIdx hs)).of_mem_items hitem hi
  have hunit : i.toNat < units.length := by omega
  rw [isBare, Index.get?_of_lt h0 hlt, List.getElem?_eq_getElem hunit, Option.any_some]
  simp only [Fault.ok_bind]
  split <;> rfl

/-! ### The last stroke -/

theorem lastStroke?_append (l k : List Stroke) (i : Int) :
    lastStroke? (l ++ k) i = (lastStroke? k i).or (lastStroke? l i) := by
  rw [lastStroke?, List.reverse_append, List.find?_append, Option.map_or]
  rfl

theorem lastStroke?_eq_none_iff {l : List Stroke} {i : Int} :
    lastStroke? l i = none ↔ ∀ shade, (i, shade) ∉ l := by
  rw [lastStroke?, Option.map_eq_none_iff, List.find?_eq_none]
  constructor
  · intro h shade hmem
    exact h (i, shade) (List.mem_reverse.2 hmem) (beq_self_eq_true i)
  · rintro h ⟨j, shade⟩ hmem hj
    obtain rfl : j = i := eq_of_beq hj
    exact h shade (List.mem_reverse.1 hmem)

theorem mem_of_lastStroke? {l : List Stroke} {i : Int} {shade : String}
    (h : lastStroke? l i = some shade) : (i, shade) ∈ l := by
  obtain ⟨⟨j, shade'⟩, hfind, rfl⟩ := Option.map_eq_some_iff.1 h
  have hj : (j == i) = true := by simpa using List.find?_some hfind
  obtain rfl : j = i := eq_of_beq hj
  exact List.mem_reverse.1 (List.mem_of_find?_eq_some hfind)

/-- The strokes of one point are all in its colour. -/
theorem lastStroke?_strokesAt {units : List Element} {color : Int → Point → String}
    {x : SlotPoint × List Int} {i : Int} (hbare : isBare units i = true) :
    lastStroke? (strokesAt units color x) i
      = if i ∈ x.2 then some (color x.1.slot x.1.point) else none := by
  split
  · rename_i hi
    cases hlast : lastStroke? (strokesAt units color x) i with
    | none => exact absurd (mem_strokesAt.2 ⟨⟨hi, hbare⟩, rfl⟩) (lastStroke?_eq_none_iff.1 hlast _)
    | some shade => rw [(mem_strokesAt.1 (mem_of_lastStroke? hlast)).2]
  · rename_i hi
    exact lastStroke?_eq_none_iff.2 fun shade h => hi (mem_strokesAt.1 h).1.1

/-- **The last stroke on a unit is that of the last point** that addresses it, of the points that
were gone through. -/
theorem lastStroke?_drawn {units : List Element} (color : Int → Point → String)
    {points : List (SlotPoint × List Int)} (hpoints : points.Pairwise fun x y => x.1.Before y.1)
    {i : Int} (hbare : isBare units i = true) :
    (lastStroke? (drawn units color points) i = none ∧ ∀ x ∈ points, i ∉ x.2)
      ∨ ∃ x ∈ points, i ∈ x.2
        ∧ lastStroke? (drawn units color points) i = some (color x.1.slot x.1.point)
        ∧ ∀ y ∈ points, i ∈ y.2 → y = x ∨ y.1.Before x.1 := by
  induction points using List.reverseRecOn with
  | nil => exact .inl ⟨rfl, by simp⟩
  | append_singleton points x ih =>
      obtain ⟨hbefore, _, hlast⟩ := List.pairwise_append.1 hpoints
      have hdrawn : lastStroke? (drawn units color (points ++ [x])) i
          = (lastStroke? (strokesAt units color x) i).or
            (lastStroke? (drawn units color points) i) := by
        rw [drawn, List.flatMap_append, List.flatMap_singleton, lastStroke?_append]
        rfl
      rw [hdrawn, lastStroke?_strokesAt hbare]
      by_cases hi : i ∈ x.2
      · -- the point that was gone through last decides
        refine .inr ⟨x, by simp, hi, by rw [if_pos hi]; rfl, fun y hy _ => ?_⟩
        rcases List.mem_append.1 hy with hy | hy
        · exact .inr (hlast y hy x (by simp))
        · exact .inl (List.mem_singleton.1 hy)
      · rw [if_neg hi, Option.none_or]
        have hskip : ∀ y ∈ points ++ [x], i ∈ y.2 → y ∈ points := by
          intro y hy hiy
          rcases List.mem_append.1 hy with hy | hy
          · exact hy
          · rw [List.mem_singleton.1 hy] at hiy
            exact absurd hiy hi
        rcases ih hbefore with ⟨hnone, hall⟩ | ⟨z, hz, hiz, hstroke, hall⟩
        · exact .inl ⟨hnone, fun y hy hiy => hall y (hskip y hy hiy) hiy⟩
        · exact .inr ⟨z, List.mem_append_left _ hz, hiz, hstroke,
            fun y hy hiy => hall y (hskip y hy hiy) hiy⟩

/-- The last stroke of a side on a unit without a colour. -/
theorem lastStroke?_listing {units : List Element} (color : Int → Point → String)
    (slots : List Slot) {i : Int} (hbare : isBare units i = true) :
    (lastStroke? (drawn units color (listing slots)) i = none ∧ ∀ a, ¬Addresses slots a i)
      ∨ ∃ a, AddressedLast slots i a
        ∧ lastStroke? (drawn units color (listing slots)) i = some (color a.slot a.point) := by
  rcases lastStroke?_drawn color (pairwise_listing slots) hbare with
    ⟨hnone, hall⟩ | ⟨⟨a, ids⟩, hmem, hi, hstroke, hall⟩
  · refine .inl ⟨hnone, fun a ha => ?_⟩
    obtain ⟨ids, hmem, hi⟩ := addresses_iff.1 ha
    exact hall _ hmem hi
  · refine .inr ⟨a, ⟨addresses_iff.2 ⟨ids, hmem, hi⟩, fun b hb => ?_⟩, hstroke⟩
    obtain ⟨ids', hmem', hi'⟩ := addresses_iff.1 hb
    exact (hall _ hmem' hi').imp_left fun h => congrArg Prod.fst h

/-! ### Colours -/

/-- **The colour of a unit.**  It is its own; else that of the last point of an output slot that
addresses it; else that of the last point of an input slot; else that of its part. -/
inductive Coloured (c : Circuit) (input output : Int → Point → String) (i : Nat) (e : Element) :
    String → Prop
  | own {shade : String} (h : e.color = some shade) : Coloured c input output i e shade
  | output {a : SlotPoint} (h : e.color = none) (ha : AddressedLast c.outputs i a) :
      Coloured c input output i e (output a.slot a.point)
  | input {a : SlotPoint} (h : e.color = none) (hout : ∀ b, ¬Addresses c.outputs b i)
      (ha : AddressedLast c.inputs i a) : Coloured c input output i e (input a.slot a.point)
  | part (h : e.color = none) (hout : ∀ b, ¬Addresses c.outputs b i)
      (hin : ∀ b, ¬Addresses c.inputs b i) : Coloured c input output i e e.part.defaultColor

variable {c : Circuit} {input output : Int → Point → String}

/-- A unit has one colour. -/
theorem Coloured.unique {i : Nat} {e : Element} {s t : String}
    (hs : c.Coloured input output i e s) (ht : c.Coloured input output i e t) : s = t := by
  cases hs with
  | own h =>
      cases ht with
      | own h' => exact Option.some.inj (h.symm.trans h')
      | output h' _ => rw [h] at h'; cases h'
      | input h' _ _ => rw [h] at h'; cases h'
      | part h' _ _ => rw [h] at h'; cases h'
  | output h ha =>
      cases ht with
      | own h' => rw [h] at h'; cases h'
      | output _ ha' => rw [ha.unique ha']
      | input _ hout _ => exact absurd ha.addresses (hout _)
      | part _ hout _ => exact absurd ha.addresses (hout _)
  | input h hout ha =>
      cases ht with
      | own h' => rw [h] at h'; cases h'
      | output _ ha' => exact absurd ha'.addresses (hout _)
      | input _ _ ha' => rw [ha.unique ha']
      | part _ _ hin => exact absurd ha.addresses (hin _)
  | part h hout hin =>
      cases ht with
      | own h' => rw [h] at h'; cases h'
      | output _ ha => exact absurd ha.addresses (hout _)
      | input _ _ ha => exact absurd ha.addresses (hin _)
      | part _ _ _ => rfl

/-! ### The strokes of both sides -/

/-- The strokes of both sides, point by point. -/
def layers (c : Circuit) (input output : Int → Point → String) : List Stroke :=
  drawn c.units input (listing c.inputs) ++ drawn c.units output (listing c.outputs)

theorem strokes_ofFunctions (hc : c.SlotsInRange) (input output : Int → Point → String) :
    c.strokes (.ofFunctions input output) = .ok (c.layers input output) :=
  Fault.bind_eq_ok_iff.2 ⟨_, strokesOf_eq input (hc .input),
    Fault.bind_eq_ok_iff.2 ⟨_, strokesOf_eq output (hc .output), rfl⟩⟩

theorem isBare_natCast {units : List Element} {i : Nat} {e : Element} (he : units[i]? = some e) :
    isBare units i = e.color.isNone := by
  have hi : i < units.length := (List.getElem?_eq_some_iff.1 he).1
  rw [isBare, Index.get?_of_lt (by omega) (by omega), Int.toNat_natCast, he, Option.any_some]

/-- A unit has a colour: its own goes before the last stroke, and that before the colour of its
part. -/
theorem coloured_getD (input output : Int → Point → String) {i : Nat} {e : Element}
    (he : c.units[i]? = some e) :
    c.Coloured input output i e
      ((e.color.orElse fun _ => lastStroke? (c.layers input output) i).getD
        e.part.defaultColor) := by
  cases hcolor : e.color with
  | some shade => exact .own hcolor
  | none =>
      have hbare : isBare c.units i = true := by rw [isBare_natCast he, hcolor]; rfl
      rw [Option.orElse_eq_or, Option.none_or, layers, lastStroke?_append]
      rcases lastStroke?_listing output c.outputs hbare with ⟨hnone, hout⟩ | ⟨a, ha, hstroke⟩
      · rw [hnone, Option.none_or]
        rcases lastStroke?_listing input c.inputs hbare with ⟨hnone, hin⟩ | ⟨a, ha, hstroke⟩
        · rw [hnone]
          exact .part hcolor hout hin
        · rw [hstroke]
          exact .input hcolor hout ha
      · rw [hstroke]
        exact .output hcolor ha

/-- There are strokes on the bare units that a slot addresses. -/
theorem exists_mem_layers {i : Int} :
    (∃ shade, (i, shade) ∈ c.layers input output)
      ↔ isBare c.units i = true ∧ ∃ side a, Addresses (c.slots side) a i := by
  have hside (color : Int → Point → String) (slots : List Slot) :
      (∃ shade, (i, shade) ∈ drawn c.units color (listing slots))
        ↔ isBare c.units i = true ∧ ∃ a, Addresses slots a i := by
    constructor
    · rintro ⟨shade, hshade⟩
      obtain ⟨⟨a, ids⟩, hmem, hstroke⟩ := List.mem_flatMap.1 hshade
      obtain ⟨⟨hi, hbare⟩, _⟩ := mem_strokesAt.1 hstroke
      exact ⟨hbare, a, addresses_iff.2 ⟨ids, hmem, hi⟩⟩
    · rintro ⟨hbare, a, ha⟩
      obtain ⟨ids, hmem, hi⟩ := addresses_iff.1 ha
      exact ⟨_, List.mem_flatMap.2 ⟨_, hmem, mem_strokesAt.2 ⟨⟨hi, hbare⟩, rfl⟩⟩⟩
  simp only [layers, List.mem_append, exists_or, hside]
  constructor
  · rintro (⟨hbare, a, ha⟩ | ⟨hbare, a, ha⟩)
    · exact ⟨hbare, .input, a, ha⟩
    · exact ⟨hbare, .output, a, ha⟩
  · rintro ⟨hbare, side, a, ha⟩
    cases side with
    | input => exact .inl ⟨hbare, a, ha⟩
    | output => exact .inr ⟨hbare, a, ha⟩

/-! ### Painted units -/

/-- The units of strokes in increasing order, each with the last stroke on it. -/
def kept (all : List Stroke) : List Stroke :=
  (Sorted.ofList Sorted.intLt (all.map Prod.fst)).filterMap fun i =>
    (lastStroke? all i).map fun color => (i, color)

theorem mem_kept {all : List Stroke} {i : Int} {shade : String} :
    (i, shade) ∈ kept all ↔ lastStroke? all i = some shade := by
  simp only [kept, List.mem_filterMap, Option.map_eq_some_iff, Prod.mk.injEq,
    Sorted.mem_ofList Sorted.isOrder_intLt, List.mem_map]
  constructor
  · rintro ⟨j, _, shade', hlast, rfl, rfl⟩
    exact hlast
  · intro hlast
    exact ⟨i, ⟨_, mem_of_lastStroke? hlast, rfl⟩, shade, hlast, rfl, rfl⟩

theorem mem_map_fst_kept {all : List Stroke} {i : Int} :
    i ∈ (kept all).map Prod.fst ↔ ∃ shade, (i, shade) ∈ all := by
  constructor
  · intro h
    obtain ⟨⟨_, shade⟩, hmem, rfl⟩ := List.mem_map.1 h
    exact ⟨shade, mem_of_lastStroke? (mem_kept.1 hmem)⟩
  · rintro ⟨shade, hmem⟩
    cases hlast : lastStroke? all i with
    | none => exact absurd hmem (lastStroke?_eq_none_iff.1 hlast shade)
    | some last => exact List.mem_map.2 ⟨_, mem_kept.2 hlast, rfl⟩

/-- No unit is kept twice. -/
theorem nodup_map_fst_kept (all : List Stroke) : ((kept all).map Prod.fst).Nodup := by
  rw [List.Nodup, List.pairwise_map, kept, List.pairwise_filterMap]
  refine (Sorted.pairwise_ofList Sorted.isOrder_intLt _).imp ?_
  intro i j hlt x hx y hy
  obtain ⟨_, _, rfl⟩ := Option.map_eq_some_iff.1 hx
  obtain ⟨_, _, rfl⟩ := Option.map_eq_some_iff.1 hy
  rintro rfl
  rw [Sorted.isOrder_intLt.irrefl] at hlt
  cases hlt

/-- The painted units are the bare ones that a slot addresses. -/
theorem mem_map_fst_kept_layers (hc : c.SlotsInRange) {i : Int} :
    i ∈ (kept (c.layers input output)).map Prod.fst
      ↔ ∃ (n : Nat) (e : Element), i = n ∧ c.units[n]? = some e ∧ e.color = none
        ∧ ∃ side a, Addresses (c.slots side) a n := by
  rw [mem_map_fst_kept, exists_mem_layers]
  constructor
  · rintro ⟨hbare, side, a, s, hs, hi⟩
    obtain ⟨h0, hlt⟩ := hc side s (List.mem_of_getElem? hs) a.point i hi
    obtain ⟨n, rfl⟩ := Int.eq_ofNat_of_zero_le h0
    have he := List.getElem?_eq_getElem (l := c.units) (i := n) (by omega)
    rw [isBare_natCast he] at hbare
    exact ⟨n, _, rfl, he, Option.isNone_iff_eq_none.1 hbare, side, a, s, hs, hi⟩
  · rintro ⟨n, e, rfl, he, hcolor, haddressed⟩
    refine ⟨?_, haddressed⟩
    rw [isBare_natCast he, hcolor]
    rfl

/-! ### Documents -/

/-- **A document shows every unit in its colour.**  A circuit whose slots lead to its units only is
written and painted with every palette.  The document has one record for each unit, and the record
of a unit shows the one colour that the unit has: its own; else that of the last point of the output
slots that lists the unit, by slots and then by points, `x` outermost; else that of the last point
of the input slots; else that of its part.  What is painted are the units without a colour of their
own that some slot lists, each once and in its colour. -/
theorem coloured_records (hc : c.SlotsInRange) (input output : Int → Point → String) :
    ∃ b painted, c.blueprint (.ofFunctions input output) = .ok b
      ∧ c.paint (.ofFunctions input output) = .ok painted
      ∧ b.document.records.length = c.units.length
      ∧ (∀ (i : Nat) (e : Element), c.units[i]? = some e →
        ∃ record shade, b.document.records[i]? = some record
          ∧ record.field? "color" = some (.str shade)
          ∧ ∀ s, c.Coloured input output i e s ↔ s = shade)
      ∧ (painted.map Prod.fst).Nodup
      ∧ (∀ i, i ∈ painted.map Prod.fst ↔ ∃ (n : Nat) (e : Element), i = n ∧ c.units[n]? = some e
        ∧ e.color = none ∧ ∃ side a, Addresses (c.slots side) a n)
      ∧ ∀ (n : Nat) (e : Element) (shade : String), c.units[n]? = some e →
        ((n : Int), shade) ∈ painted → c.Coloured input output n e shade := by
  have hstrokes := strokes_ofFunctions hc input output
  have hpalette : ∃ b, c.blueprint (.ofFunctions input output) = .ok b :=
    exists_blueprint hc (fun _ _ => ⟨_, rfl⟩) fun _ _ => ⟨_, rfl⟩
  obtain ⟨b, hb⟩ := hpalette
  obtain ⟨records, hrecords, hdocument⟩ := records_document hb
  obtain ⟨strokes, hstrokes', hrecords⟩ := Fault.bind_eq_ok_iff.1 hrecords
  obtain rfl := Except.ok.inj (hstrokes.symm.trans hstrokes')
  cases hrecords
  have hpainted : c.paint (.ofFunctions input output) = .ok (kept (c.layers input output)) :=
    Fault.bind_eq_ok_iff.2 ⟨_, hstrokes, rfl⟩
  refine ⟨b, _, hb, hpainted, ?_, fun i e he => ?_, nodup_map_fst_kept _,
    fun i => mem_map_fst_kept_layers hc, fun n e shade he hmem => ?_⟩
  · rw [hdocument, List.length_map, List.length_zipIdx]
  · have hcoloured := coloured_getD input output he
    refine ⟨e.record e.pos e.turn i (lastStroke? (c.layers input output) i), _, ?_, rfl,
      fun s => ⟨fun h => h.unique hcoloured, fun h => h ▸ hcoloured⟩⟩
    rw [hdocument, List.getElem?_map, List.getElem?_zipIdx, he, Nat.zero_add]
    rfl
  · obtain ⟨n', e', hn, he', hcolor, _⟩ :=
      (mem_map_fst_kept_layers hc).1 (List.mem_map_of_mem hmem)
    obtain rfl : n = n' := Int.ofNat.inj hn
    obtain rfl := Option.some.inj (he.symm.trans he')
    have hcoloured := coloured_getD input output he
    rw [hcolor, mem_kept.1 hmem] at hcoloured
    exact hcoloured

/-- A gate with a colour of its own, a gate that two points of an output slot and two input slots
list, a timer that input slots list, and a gate that is in no slot. -/
def pennant : Circuit where
  units := [⟨⟨.gate .and, [1], some "19e753", false⟩, ⟨0, 0, 0⟩, .identity⟩,
    ⟨⟨.gate .or, [2], none, false⟩, ⟨1, 0, 0⟩, .identity⟩,
    ⟨⟨.timer 7, [3], none, false⟩, ⟨2, 0, 0⟩, .identity⟩,
    ⟨⟨.gate .xor, [], none, false⟩, ⟨2, 1, 0⟩, .identity⟩]
  inputs := [⟨"hoist", "bit", .single [2, 0, 1, 2], []⟩, ⟨"_", "bit", .single [1, 2], []⟩]
  outputs := [⟨"_", "bit", ⟨⟨2, 2, 1⟩, [[0], [1], [1, 1], []], rfl, rfl⟩, []⟩]
  bounds := ⟨4, 2, 2⟩

/-- The gate has the colour of the last point that lists it, in the order of the box. -/
theorem coloured_records_pennant :
    pennant.SlotsInRange
      ∧ pennant.Coloured (fun number _ => if number = 0 then "eeeeee" else "222222")
          (fun _ p => if p.x = 0 then "7c0000" else "0a3ee2") 1
          ⟨⟨.gate .or, [2], none, false⟩, ⟨1, 0, 0⟩, .identity⟩ "0a3ee2"
      ∧ pennant.Coloured (fun number _ => if number = 0 then "eeeeee" else "222222")
          (fun _ p => if p.x = 0 then "7c0000" else "0a3ee2") 2
          ⟨⟨.timer 7, [3], none, false⟩, ⟨2, 0, 0⟩, .identity⟩ "222222"
      ∧ ∀ side a, ¬Addresses (pennant.slots side) a 3 := by
  have hslots : pennant.SlotsInRange := by
    intro side s hs
    rw [← Slot.dangling?_eq_none_iff_inRange]
    revert s
    cases side <;> decide
  obtain ⟨b, painted, hb, hpainted, _, hrecords, _, hkeys, _⟩ := coloured_records hslots
    (fun number _ => if number = 0 then "eeeeee" else "222222")
    fun _ p => if p.x = 0 then "7c0000" else "0a3ee2"
  cases hb
  cases hpainted
  refine ⟨hslots, ?_, ?_, fun side a ha => ?_⟩
  · obtain ⟨record, shade, hrecord, hshade, hcoloured⟩ := hrecords 1 _ rfl
    cases hrecord
    cases hshade
    exact (hcoloured _).2 rfl
  · obtain ⟨record, shade, hrecord, hshade, hcoloured⟩ := hrecords 2 _ rfl
    cases hrecord
    cases hshade
    exact (hcoloured _).2 rfl
  · have hkey := (hkeys 3).2 ⟨3, _, rfl, rfl, rfl, side, a, ha⟩
    revert hkey
    decide

end Circuit

end Breadboard
