import Breadboard.Fault
import Breadboard.Grid.Reading
import Breadboard.Sorted
import Std.Data.HashMap

/-!
**Wirings.**

A wiring proposes which points of one box are connected to which points of another.  It sees only
the sizes of the two boxes, and a proposed point may lie outside its box; whoever uses the wiring
drops such pairs.

Main definitions:

* `Wiring` — one to one, fanned out along axes, by a function, restricted, in several steps, or a
  rule of its own;
* `Wiring.pairs` — the proposed pairs of points;
* `Wiring.chain` — one more step;
* `Wiring.shift` — every point to the one displaced by an offset;
* `Pair.before` — the order of pairs, by their starts and then by their ends.

Main results:

* `Pair.isOrder_before` — the order of pairs is a strict total order;
* `Wiring.continued_eq` — **a pair is continued by every pair that starts where it ends**;
* `Wiring.pairwise_joint` — **a wiring in several steps proposes an increasing list of pairs**.
-/

set_option autoImplicit false
set_option relaxedAutoImplicit false

namespace Breadboard

abbrev Pair := Point × Point

namespace Pair

def before (a b : Pair) : Bool :=
  Point.before a.1 b.1 || (decide (a.1 = b.1) && Point.before a.2 b.2)

end Pair

/-- A rule that proposes pairs of points of two boxes. -/
inductive Wiring where
  /-- Every point is connected to the same point of the other box, as far as both boxes reach. -/
  | straight
  /-- Every point is connected to all points of the other box that agree with it on the axes that
  are not marked. -/
  | dim (x y z : Bool)
  /-- Every point is connected to its image, which may depend on the sizes of the boxes. -/
  | map (label : String) (image : Point → Point → Point → Except Fault (Option Point))
  /-- The pairs of another wiring that meet a condition. -/
  | filter (inner : Wiring) (keep : Point → Point → Except Fault Bool)
  /-- One wiring after the other, through boxes in between.  A step may give the size of the box
  from which it starts; otherwise that is the box from which the step before started. -/
  | joint (first : Wiring) (rest : List (Option Point × Wiring))
  /-- Any other rule.  It may propose pairs in any order, pairs that repeat and points outside the
  boxes. -/
  | own (label : String) (propose : Point → Point → Except Fault (List Pair))

namespace Wiring

instance : Inhabited Wiring := ⟨straight⟩

def shift (offset : Point) : Wiring := map "shifted" fun p _ _ => .ok (some (p + offset))

def chain (w : Wiring) (box : Option Point) (next : Wiring) : Wiring :=
  match w with
  | joint first rest => joint first (rest ++ [(box, next)])
  | _ => joint w [(box, next)]

/-! ### Proposed pairs -/

/-- One to one, as far as both boxes reach. -/
def straightPairs (start stop : Point) : List Pair := (start.meet stop).box.map fun p => (p, p)

/-- The coordinates to which a coordinate is connected along one axis. -/
def dimRange (marked : Bool) (coordinate extent : Int) : List Int :=
  if marked then Point.below extent else [coordinate]

/-- Every point with all points that agree with it on the axes that are not marked. -/
def dimPairs (x y z : Bool) (start stop : Point) : List Pair :=
  start.box.flatMap fun p =>
    (dimRange x p.x stop.x).flatMap fun a =>
      (dimRange y p.y stop.y).flatMap fun b =>
        (dimRange z p.z stop.z).map fun c => (p, ⟨a, b, c⟩)

/-- Every point that has an image, with its image. -/
def mapPairs (image : Point → Point → Point → Except Fault (Option Point)) (start stop : Point) :
    Except Fault (List Pair) := do
  let images ← start.box.mapM fun p => do
    pure ((← image p start stop).map fun q => (p, q))
  pure (images.filterMap id)

/-- The box in which a step ends: the one from which the next step starts, or the last box. -/
def stepStop (start stop : Point) : List (Option Point × Wiring) → Point
  | [] => stop
  | (box, _) :: _ => box.getD start

def endsByStart (pairs : List Pair) : Std.HashMap Point (List Point) :=
  pairs.foldr (fun pair ends => ends.insert pair.1 (pair.2 :: ends.getD pair.1 [])) ∅

/-- The pairs of origins and points continued by the pairs of one step that end inside its box. -/
def continued (live step : List Pair) (stop : Point) : List Pair :=
  let ends := endsByStart (step.filter fun pair => pair.2.isInside stop)
  live.flatMap fun pair => (ends.getD pair.2 []).map fun q => (pair.1, q)

mutual

def pairs : Wiring → Point → Point → Except Fault (List Pair)
  | straight, start, stop => .ok (straightPairs start stop)
  | dim x y z, start, stop => .ok (dimPairs x y z start stop)
  | map _ image, start, stop => mapPairs image start stop
  | filter inner keep, start, stop => do
      (← pairs inner start stop).filterM fun pair => keep pair.1 pair.2
  | joint first rest, start, stop => do
      let stepEnd := stepStop start stop rest
      let step ← pairs first start stepEnd
      let live := continued (start.box.map fun p => (p, p)) step stepEnd
      pure (Sorted.ofList Pair.before (← pairsThrough rest stepEnd stop live))
  | own _ propose, start, stop => propose start stop

/-- Pairs of origins and points continued through the remaining steps. -/
def pairsThrough : List (Option Point × Wiring) → Point → Point → List Pair →
    Except Fault (List Pair)
  | [], _, _, live => .ok live
  | (box, w) :: rest, start, stop, live => do
      let start := box.getD start
      let stepEnd := stepStop start stop rest
      let step ← pairs w start stepEnd
      pairsThrough rest stepEnd stop (continued live step stepEnd)

end

/-! ### Text -/

mutual

/-- The text of a wiring inside a message. -/
def display : Wiring → String
  | straight => "ConnStraight()"
  | dim x y z =>
      "ConnDim(" ++ displayTuple [displayBool x, displayBool y, displayBool z] ++ ")"
  | map label _ => "ConnMap(" ++ label ++ ")"
  | filter inner _ => "ConnFilter(" ++ display inner ++ ")"
  | joint first rest =>
      "ConnJoint([" ++ ", ".intercalate (display first :: displaySteps rest) ++ "])"
  | own label _ => label

def displaySteps : List (Option Point × Wiring) → List String
  | [] => []
  | (_, w) :: rest => display w :: displaySteps rest

end

end Wiring

/-! ### Steps behind one another -/

/-- The ends of a start are found in the order of the pairs. -/
theorem Wiring.getD_endsByStart (pairs : List Pair) (p : Point) :
    (endsByStart pairs).getD p []
      = (pairs.filter fun pair => decide (pair.1 = p)).map Prod.snd := by
  induction pairs with
  | nil => simp [endsByStart]
  | cons pair rest ih =>
      simp only [endsByStart, List.foldr_cons] at ih ⊢
      rw [Std.HashMap.getD_insert]
      by_cases h : pair.1 = p
      · subst h
        simp [ih]
      · simp [h, ih]

/-- **A pair is continued by every pair of the step that starts where it ends and ends inside.** -/
theorem Wiring.continued_eq (live step : List Pair) (stop : Point) :
    continued live step stop = live.flatMap fun pair =>
      ((step.filter fun next => next.2.isInside stop).filter fun next =>
        decide (next.1 = pair.2)).map fun next => (pair.1, next.2) := by
  simp only [continued, getD_endsByStart, List.map_map, Function.comp_def]

/-! ### The order of pairs -/

theorem Point.before_iff {a b : Point} :
    a.before b = true ↔ a.x < b.x ∨ (a.x = b.x ∧ (a.y < b.y ∨ (a.y = b.y ∧ a.z < b.z))) := by
  simp [Point.before]

theorem Point.isOrder_before : Sorted.IsOrder Point.before where
  asymm a b h := by
    rw [Point.before_iff] at h
    rw [← Bool.not_eq_true, Point.before_iff]
    omega
  trans a b c h k := by
    rw [Point.before_iff] at *
    omega
  total a b h k := by
    rw [← Bool.not_eq_true, Point.before_iff] at h k
    obtain ⟨x, y, z⟩ := a
    obtain ⟨u, v, w⟩ := b
    simp only [Point.mk.injEq] at *
    omega

theorem Pair.before_iff {a b : Pair} :
    Pair.before a b = true ↔ a.1.before b.1 = true ∨ (a.1 = b.1 ∧ a.2.before b.2 = true) := by
  simp [Pair.before]

/-- The order of pairs is a strict total order. -/
theorem Pair.isOrder_before : Sorted.IsOrder Pair.before where
  asymm a b h := by
    rw [Pair.before_iff] at h
    rw [← Bool.not_eq_true, Pair.before_iff]
    rintro (k | ⟨e, k⟩) <;> rcases h with h | ⟨e', h⟩
    · rw [Point.isOrder_before.asymm _ _ h] at k; cases k
    · rw [e', Point.isOrder_before.irrefl] at k; cases k
    · rw [e, Point.isOrder_before.irrefl] at h; cases h
    · rw [Point.isOrder_before.asymm _ _ h] at k; cases k
  trans a b c h k := by
    rw [Pair.before_iff] at *
    rcases h with h | ⟨e, h⟩ <;> rcases k with k | ⟨e', k⟩
    · exact .inl (Point.isOrder_before.trans _ _ _ h k)
    · exact .inl (e' ▸ h)
    · exact .inl (e ▸ k)
    · exact .inr ⟨e.trans e', Point.isOrder_before.trans _ _ _ h k⟩
  total a b h k := by
    rw [← Bool.not_eq_true, Pair.before_iff, not_or] at h k
    have e : a.1 = b.1 :=
      Point.isOrder_before.total _ _ (by simpa using h.1) (by simpa using k.1)
    have e' : a.2 = b.2 := by
      refine Point.isOrder_before.total _ _ ?_ ?_
      · rw [← Bool.not_eq_true]; exact fun hab => h.2 ⟨e, hab⟩
      · rw [← Bool.not_eq_true]; exact fun hba => k.2 ⟨e.symm, hba⟩
    exact Prod.ext e e'

/-- **A wiring in several steps proposes an increasing list of pairs.** -/
theorem Wiring.pairwise_joint {first : Wiring} {rest : List (Option Point × Wiring)}
    {start stop : Point} {proposed : List Pair}
    (h : (joint first rest).pairs start stop = .ok proposed) :
    proposed.Pairwise fun a b => Pair.before a b = true := by
  rw [pairs] at h
  obtain ⟨step, _, h⟩ := Fault.bind_eq_ok_iff.1 h
  obtain ⟨live, _, h⟩ := Fault.bind_eq_ok_iff.1 h
  cases h
  exact Sorted.pairwise_ofList Pair.isOrder_before _

end Breadboard
