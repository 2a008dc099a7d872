import Breadboard.Proofs.Loop
import Breadboard.Proofs.Sorted
import Breadboard.Wiring.Basic
import Mathlib.Logic.Relation

/-!
**Wirings in several steps.**

A wiring in several steps leads from box to box.  Which boxes these are is settled before any step
is asked for its pairs: a step starts from the box that is given for it, or from that of the step
before, and it ends in the box from which the next one starts.  Each step then relates points, and
the wiring proposes their relational composition, as an increasing list.

Nothing but the composition counts, so steps at the end may be put together into a wiring of their
own.  That does not hold for steps in front: a wiring that stands there ends in the box of the next
step, and its last step would start from that box if none is given for it.

Main definitions:

* `Stage` — a wiring between two boxes, and `Stage.Passes`, the relation on points;
* `Wiring.startOf`, `Wiring.stopOf` — the boxes of a step;
* `Wiring.stages` — all steps with their boxes;
* `Stage.composite` — the relational composition of stages;
* `Wiring.chainAll` — more steps, one after the other.

Main results:

* `Wiring.pairs_joint_eq` — a wiring in several steps, as one pass over its stages;
* `Wiring.mem_joint` — **it relates the points that its stages relate one after the other**;
* `Wiring.pairs_joint` — the same with the boxes and the points in between written out;
* `Wiring.pairs_chain_nested` — **steps at the end may be put together, and a wiring in several
  steps may be a single step**.
-/

set_option autoImplicit false
set_option relaxedAutoImplicit false

namespace Breadboard

/-! ### One step -/

/-- A wiring between boxes of given sizes. -/
structure Stage where
  wiring : Wiring
  start : Point
  stop : Point

namespace Stage

/-- The proposed pairs that end in the box. -/
def kept (s : Stage) : Except Fault (List Pair) := do
  pure ((← s.wiring.pairs s.start s.stop).filter fun pair => pair.2.isInside s.stop)

/-- The stage proposes the pair of the two points, and the second one lies in its box. -/
def Passes (s : Stage) (p q : Point) : Prop :=
  (∃ proposed, s.wiring.pairs s.start s.stop = .ok proposed ∧ (p, q) ∈ proposed)
    ∧ q.isInside s.stop = true

theorem kept_isOk_iff {s : Stage} :
    (∃ pairs, s.kept = .ok pairs) ↔ ∃ proposed, s.wiring.pairs s.start s.stop = .ok proposed := by
  constructor
  · rintro ⟨pairs, h⟩
    obtain ⟨proposed, hproposed, _⟩ := Fault.bind_eq_ok_iff.1 h
    exact ⟨proposed, hproposed⟩
  · rintro ⟨proposed, hproposed⟩
    exact ⟨_, Fault.bind_eq_ok_iff.2 ⟨proposed, hproposed, rfl⟩⟩

theorem mem_of_kept {s : Stage} {pairs : List Pair} (h : s.kept = .ok pairs) {p q : Point} :
    (p, q) ∈ pairs ↔ s.Passes p q := by
  obtain ⟨proposed, hproposed, h⟩ := Fault.bind_eq_ok_iff.1 h
  cases h
  simp only [List.mem_filter, Passes, hproposed, Except.ok.injEq, exists_eq_left']

/-- The points that stages relate one after the other. -/
def composite (stages : List Stage) : Point → Point → Prop :=
  stages.foldr (fun s later => Relation.Comp s.Passes later) Eq

@[simp] theorem composite_nil : composite [] = Eq := rfl

@[simp] theorem composite_cons (s : Stage) (rest : List Stage) :
    composite (s :: rest) = Relation.Comp s.Passes (composite rest) := rfl

theorem composite_append (first second : List Stage) :
    composite (first ++ second) = Relation.Comp (composite first) (composite second) := by
  induction first with
  | nil => rw [List.nil_append, composite_nil, Relation.eq_comp]
  | cons s rest ih => rw [List.cons_append, composite_cons, ih, composite_cons, Relation.comp_assoc]

/-- Points related by stages, with the points in between. -/
theorem composite_iff {stages : List Stage} {p q : Point} :
    composite stages p q ↔ ∃ via : Nat → Point, via 0 = p ∧ via stages.length = q ∧
      ∀ (i : Nat) (s : Stage), stages[i]? = some s → s.Passes (via i) (via (i + 1)) := by
  induction stages generalizing p with
  | nil =>
      constructor
      · intro h
        exact ⟨fun _ => p, rfl, h, fun i s hs => by cases hs⟩
      · rintro ⟨via, rfl, rfl, _⟩
        rfl
  | cons s rest ih =>
      constructor
      · rintro ⟨m, hfirst, hrest⟩
        obtain ⟨via, rfl, hlast, hsteps⟩ := ih.1 hrest
        refine ⟨fun i => Nat.casesOn i p via, rfl, hlast, fun i t ht => ?_⟩
        cases i with
        | zero =>
            cases ht
            exact hfirst
        | succ i => exact hsteps i t ht
      · rintro ⟨via, rfl, hlast, hsteps⟩
        refine ⟨via 1, hsteps 0 s rfl, ih.2 ⟨fun i => via (i + 1), rfl, hlast, fun i t ht => ?_⟩⟩
        exact hsteps (i + 1) t ht

/-! ### Stages as one pass -/

/-- Pairs continued by every pair that starts where they end. -/
def compose (live step : List Pair) : List Pair :=
  live.flatMap fun pair =>
    (step.filter fun next => decide (next.1 = pair.2)).map fun next => (pair.1, next.2)

theorem mem_compose {live step : List Pair} {a c : Point} :
    (a, c) ∈ compose live step ↔ ∃ b, (a, b) ∈ live ∧ (b, c) ∈ step := by
  simp only [compose, List.mem_flatMap, List.mem_map, List.mem_filter, decide_eq_true_eq,
    Prod.mk.injEq, Prod.exists]
  constructor
  · rintro ⟨_, b, hlive, _, _, ⟨hstep, rfl⟩, rfl, rfl⟩
    exact ⟨_, hlive, hstep⟩
  · rintro ⟨b, hlive, hstep⟩
    exact ⟨a, b, hlive, b, c, ⟨hstep, rfl⟩, rfl, rfl⟩

/-- The pairs that stages make of the points of a box, as an increasing list. -/
def run (start : Point) (stages : List Stage) : Except Fault (List Pair) := do
  let steps ← stages.mapM kept
  pure (Sorted.ofList Pair.before (steps.foldl compose (start.box.map fun p => (p, p))))

/-- What is left at the end of the steps started in the list that was there before them. -/
theorem mem_foldl_compose {stages : List Stage} {steps : List (List Pair)}
    (h : stages.mapM kept = .ok steps) {live : List Pair} {a c : Point} :
    (a, c) ∈ steps.foldl compose live ↔ ∃ b, (a, b) ∈ live ∧ composite stages b c := by
  have hall := Loop.mapM_eq_ok_iff.1 h
  clear h
  induction hall generalizing live with
  | nil => simp
  | @cons s step rest steps hstep _ ih =>
      rw [List.foldl_cons, composite_cons]
      refine ih.trans ?_
      simp only [mem_compose, mem_of_kept hstep, Relation.Comp]
      constructor
      · rintro ⟨m, ⟨b, hlive, hpass⟩, hrest⟩
        exact ⟨b, hlive, m, hpass, hrest⟩
      · rintro ⟨b, hlive, m, hpass, hrest⟩
        exact ⟨m, ⟨b, hlive, hpass⟩, hrest⟩

/-- **The points of a box with those to which the stages relate them.** -/
theorem mem_run {stages : List Stage} {start : Point} {pairs : List Pair}
    (h : run start stages = .ok pairs) {a c : Point} :
    (a, c) ∈ pairs ↔ a.isInside start = true ∧ composite stages a c := by
  obtain ⟨steps, hsteps, h⟩ := Fault.bind_eq_ok_iff.1 h
  cases h
  rw [Sorted.mem_ofList Pair.isOrder_before, mem_foldl_compose hsteps]
  constructor
  · rintro ⟨b, hb, hrest⟩
    obtain ⟨p, hp, e⟩ := List.mem_map.1 hb
    obtain ⟨rfl, rfl⟩ := Prod.mk.inj e
    exact ⟨Point.mem_box.1 hp, hrest⟩
  · rintro ⟨ha, hrest⟩
    exact ⟨a, List.mem_map.2 ⟨a, Point.mem_box.2 ha, rfl⟩, hrest⟩

theorem pairwise_run {stages : List Stage} {start : Point} {pairs : List Pair}
    (h : run start stages = .ok pairs) :
    pairs.Pairwise fun a b => Pair.before a b = true := by
  obtain ⟨steps, _, h⟩ := Fault.bind_eq_ok_iff.1 h
  cases h
  exact Sorted.pairwise_ofList Pair.isOrder_before _

/-- Stages that relate the points of a box in the same way make the same pairs of it. -/
theorem run_congr {stages stages' : List Stage} {start : Point} {pairs pairs' : List Pair}
    (h : run start stages = .ok pairs) (h' : run start stages' = .ok pairs')
    (hsame : ∀ p q, p.isInside start = true → (composite stages p q ↔ composite stages' p q)) :
    pairs = pairs' := by
  refine Sorted.eq_of_mem_iff Pair.isOrder_before (pairwise_run h) (pairwise_run h') ?_
  rintro ⟨p, q⟩
  rw [mem_run h, mem_run h', and_congr_right_iff]
  exact hsame p q

theorem run_isOk_iff {stages : List Stage} {start : Point} :
    (∃ pairs, run start stages = .ok pairs) ↔
      ∀ s ∈ stages, ∃ proposed, s.wiring.pairs s.start s.stop = .ok proposed := by
  simp only [← kept_isOk_iff]
  rw [← Loop.mapM_isOk_iff]
  constructor
  · rintro ⟨pairs, h⟩
    obtain ⟨steps, hsteps, _⟩ := Fault.bind_eq_ok_iff.1 h
    exact ⟨steps, hsteps⟩
  · rintro ⟨steps, hsteps⟩
    exact ⟨_, Fault.bind_eq_ok_iff.2 ⟨steps, hsteps, rfl⟩⟩

end Stage

namespace Wiring

/-! ### The boxes of the steps -/

/-- The box from which a step starts, by the number of the step: the first one starts from the box
that the wiring is asked for. -/
def startOf (start : Point) (rest : List (Option Point × Wiring)) : Nat → Point
  | 0 => start
  | i + 1 => (rest[i]?.bind Prod.fst).getD (startOf start rest i)

/-- The box in which a step ends, by the number of the step: the last one ends in the box that the
wiring is asked for. -/
def stopOf (start stop : Point) (rest : List (Option Point × Wiring)) (i : Nat) : Point :=
  if i < rest.length then startOf start rest (i + 1) else stop

/-- Steps with their boxes. -/
def stages : List (Option Point × Wiring) → Point → Point → List Stage
  | [], _, _ => []
  | (box, w) :: rest, start, stop =>
      ⟨w, box.getD start, stepStop (box.getD start) stop rest⟩ :: stages rest (box.getD start) stop

theorem startOf_cons (start : Point) (step : Option Point × Wiring)
    (rest : List (Option Point × Wiring)) (i : Nat) :
    startOf start (step :: rest) (i + 1) = startOf (step.1.getD start) rest i := by
  induction i with
  | zero => rfl
  | succ i ih => rw [startOf, ih, List.getElem?_cons_succ, startOf]

theorem stopOf_cons (start stop : Point) (step : Option Point × Wiring)
    (rest : List (Option Point × Wiring)) (i : Nat) :
    stopOf start stop (step :: rest) (i + 1) = stopOf (step.1.getD start) stop rest i := by
  simp only [stopOf, List.length_cons, Nat.add_lt_add_iff_right, startOf_cons]

theorem stepStop_eq (start stop : Point) (rest : List (Option Point × Wiring)) :
    stepStop start stop rest = stopOf start stop rest 0 := by
  cases rest <;> rfl

/-- A step with its boxes, by its number. -/
theorem getElem?_stages (steps : List (Option Point × Wiring)) (start stop : Point) (i : Nat) :
    (stages steps start stop)[i]? = steps[i]?.map fun step =>
      ⟨step.2, startOf start steps (i + 1), stopOf start stop steps (i + 1)⟩ := by
  induction steps generalizing start i with
  | nil => rfl
  | cons step rest ih =>
      cases i with
      | zero =>
          rw [stages, stepStop_eq, List.getElem?_cons_zero, List.getElem?_cons_zero,
            Option.map_some, startOf_cons, stopOf_cons, startOf]
      | succ i =>
          rw [stages, List.getElem?_cons_succ, List.getElem?_cons_succ, ih]
          simp only [startOf_cons, stopOf_cons]

@[simp] theorem length_stages (steps : List (Option Point × Wiring)) (start stop : Point) :
    (stages steps start stop).length = steps.length := by
  induction steps generalizing start with
  | nil => rfl
  | cons step rest ih => rw [stages, List.length_cons, ih, List.length_cons]

/-! ### The steps as one pass -/

/-- A box that is given for a step is that of the step also if it is passed on to it. -/
theorem pairsThrough_stepStop (rest : List (Option Point × Wiring)) (start stop : Point)
    (live : List Pair) :
    pairsThrough rest (stepStop start stop rest) stop live = pairsThrough rest start stop live := by
  match rest with
  | [] => rw [pairsThrough, pairsThrough]
  | (none, w) :: rest => rfl
  | (some box, w) :: rest => rfl

/-- The remaining steps, as one pass over their stages. -/
theorem pairsThrough_eq (steps : List (Option Point × Wiring)) (start stop : Point)
    (live : List Pair) :
    pairsThrough steps start stop live = (do
      pure ((← (stages steps start stop).mapM Stage.kept).foldl Stage.compose live)) := by
  induction steps generalizing start live with
  | nil => rw [pairsThrough]; rfl
  | cons step rest ih =>
      obtain ⟨box, w⟩ := step
      rw [pairsThrough, stages, List.mapM_cons, Stage.kept]
      simp only []
      cases hstep : w.pairs (box.getD start) (stepStop (box.getD start) stop rest) with
      | error fault => rfl
      | ok step =>
          simp only [Fault.ok_bind]
          rw [pairsThrough_stepStop, ih, continued_eq]
          cases (stages rest (box.getD start) stop).mapM Stage.kept <;> rfl

/-- A wiring in several steps goes through all its steps and lists what comes out. -/
theorem pairs_joint_eq_through (first : Wiring) (rest : List (Option Point × Wiring))
    (start stop : Point) :
    (joint first rest).pairs start stop = (do
      let live ← pairsThrough ((none, first) :: rest) start stop (start.box.map fun p => (p, p))
      pure (Sorted.ofList Pair.before live)) := by
  rw [pairs, pairsThrough]
  simp only [Option.getD_none]
  cases first.pairs start (stepStop start stop rest) <;> rfl

/-- **A wiring in several steps, as one pass over its stages.** -/
theorem pairs_joint_eq (first : Wiring) (rest : List (Option Point × Wiring)) (start stop : Point) :
    (joint first rest).pairs start stop
      = Stage.run start (stages ((none, first) :: rest) start stop) := by
  rw [pairs_joint_eq_through, pairsThrough_eq, bind_assoc]
  rfl

/-! ### The relation of a wiring in several steps -/

/-- **A wiring in several steps relates the points that its stages relate one after the other.** -/
theorem mem_joint {first : Wiring} {rest : List (Option Point × Wiring)} {start stop : Point}
    {proposed : List Pair} (h : (joint first rest).pairs start stop = .ok proposed) {a z : Point} :
    (a, z) ∈ proposed ↔
      a.isInside start = true
        ∧ Stage.composite (stages ((none, first) :: rest) start stop) a z := by
  rw [pairs_joint_eq] at h
  exact Stage.mem_run h

/-- The stages of a wiring in several steps, by their numbers. -/
theorem getElem?_stages_joint (first : Wiring) (rest : List (Option Point × Wiring))
    (start stop : Point) (i : Nat) :
    (stages ((none, first) :: rest) start stop)[i]? =
      (first :: rest.map Prod.snd)[i]?.map fun w =>
        ⟨w, startOf start rest i, stopOf start stop rest i⟩ := by
  rw [getElem?_stages, startOf_cons, stopOf_cons, Option.getD_none]
  cases i with
  | zero => rfl
  | succ i =>
      rw [List.getElem?_cons_succ, List.getElem?_cons_succ, List.getElem?_map, Option.map_map]
      rfl

/-- **A wiring in several steps proposes the relational composition of its steps.**  It proposes
pairs exactly if each step does between its boxes; then the pairs are increasing, and two points are
a pair if the first lies in the box at the start and there are points in between such that each step
proposes every pair of neighbours, and the second of them lies in the box in which the step ends. -/
theorem pairs_joint (first : Wiring) (rest : List (Option Point × Wiring)) (start stop : Point) :
    ((∃ proposed, (joint first rest).pairs start stop = .ok proposed) ↔
      ∀ (i : Nat) (w : Wiring), (first :: rest.map Prod.snd)[i]? = some w →
        ∃ proposed, w.pairs (startOf start rest i) (stopOf start stop rest i) = .ok proposed) ∧
    ∀ proposed, (joint first rest).pairs start stop = .ok proposed →
      (proposed.Pairwise fun a b => Pair.before a b = true) ∧
      ∀ a z, (a, z) ∈ proposed ↔
        a.isInside start = true ∧
        ∃ via : Nat → Point, via 0 = a ∧ via (rest.length + 1) = z ∧
          ∀ (i : Nat) (w : Wiring), (first :: rest.map Prod.snd)[i]? = some w →
            (∃ step, w.pairs (startOf start rest i) (stopOf start stop rest i) = .ok step ∧
              (via i, via (i + 1)) ∈ step) ∧
            (via (i + 1)).isInside (stopOf start stop rest i) = true := by
  refine ⟨?_, fun proposed h => ⟨pairwise_joint h, fun a z => ?_⟩⟩
  · rw [pairs_joint_eq, Stage.run_isOk_iff]
    constructor
    · intro h i w hw
      refine h ⟨w, startOf start rest i, stopOf start stop rest i⟩
        (List.mem_of_getElem? (i := i) ?_)
      rw [getElem?_stages_joint, hw]
      rfl
    · intro h s hs
      obtain ⟨i, hi⟩ := List.getElem?_of_mem hs
      rw [getElem?_stages_joint] at hi
      obtain ⟨w, hw, rfl⟩ := Option.map_eq_some_iff.1 hi
      exact h i w hw
  · rw [mem_joint h, Stage.composite_iff, length_stages, List.length_cons]
    simp only [getElem?_stages_joint, Option.map_eq_some_iff, forall_exists_index, and_imp,
      forall_comm (α := Stage), forall_eq', Stage.Passes]

/-- Three steps: a fan-out into a box that is given, a displacement whose box is that of the step
before, and two steps put together, through a box that is given. -/
def fannedSteps : List (Option Point × Wiring) :=
  [(some ⟨3, 1, 1⟩, shift ⟨1, 0, 0⟩), (none, joint straight [(some ⟨2, 1, 1⟩, straight)])]

theorem pairs_joint_fanned :
    (joint (dim true false false) fannedSteps).pairs .one ⟨4, 1, 1⟩ = .ok [(.origin, ⟨1, 0, 0⟩)] ∧
    ∃ via : Nat → Point, via 0 = .origin ∧ via 3 = ⟨1, 0, 0⟩ ∧
      ∀ (i : Nat) (w : Wiring),
        (dim true false false :: fannedSteps.map Prod.snd)[i]? = some w →
          (∃ step, w.pairs (startOf .one fannedSteps i) (stopOf .one ⟨4, 1, 1⟩ fannedSteps i)
              = .ok step ∧ (via i, via (i + 1)) ∈ step) ∧
          (via (i + 1)).isInside (stopOf .one ⟨4, 1, 1⟩ fannedSteps i) = true := by
  have hlast : (joint straight [(some ⟨2, 1, 1⟩, straight)]).pairs ⟨3, 1, 1⟩ ⟨4, 1, 1⟩
      = .ok [(.origin, .origin), (⟨1, 0, 0⟩, ⟨1, 0, 0⟩)] := by rw [pairs_joint_eq]; rfl
  have h : (joint (dim true false false) fannedSteps).pairs .one ⟨4, 1, 1⟩
      = .ok [(.origin, ⟨1, 0, 0⟩)] := by
    rw [pairs_joint_eq, Stage.run]
    simp only [stages, stepStop, fannedSteps, Option.getD_some, Option.getD_none, List.mapM_cons,
      List.mapM_nil, Stage.kept, hlast]
    rfl
  have hsteps := ((pairs_joint (dim true false false) fannedSteps .one ⟨4, 1, 1⟩).2 _ h).2
  exact ⟨h, ((hsteps .origin ⟨1, 0, 0⟩).1 List.mem_cons_self).2⟩

/-! ### Steps put together -/

/-- More steps, one after the other. -/
def chainAll (w : Wiring) (steps : List (Option Point × Wiring)) : Wiring :=
  steps.foldl (fun w step => w.chain step.1 step.2) w

theorem chainAll_joint (first : Wiring) (rest steps : List (Option Point × Wiring)) :
    (joint first rest).chainAll steps = joint first (rest ++ steps) := by
  induction steps generalizing rest with
  | nil => rw [List.append_nil]; rfl
  | cons step steps ih =>
      have hstep := ih (rest ++ [step])
      rw [List.append_assoc, List.singleton_append] at hstep
      exact hstep

/-- A wiring with more steps is a wiring in several steps. -/
theorem exists_chainAll (w : Wiring) : ∃ first rest, ∀ steps ≠ [],
    w.chainAll steps = joint first (rest ++ steps) := by
  have hsingle (hchain : ∀ box next, w.chain box next = joint w [(box, next)])
      (steps : List (Option Point × Wiring)) (hsteps : steps ≠ []) :
      w.chainAll steps = joint w ([] ++ steps) := by
    cases steps with
    | nil => exact absurd rfl hsteps
    | cons step steps =>
        show (w.chain step.1 step.2).chainAll steps = joint w (step :: steps)
        rw [hchain, chainAll_joint]
        rfl
  cases w with
  | joint first rest => exact ⟨first, rest, fun steps _ => chainAll_joint first rest steps⟩
  | straight => exact ⟨_, [], hsingle fun _ _ => rfl⟩
  | dim x y z => exact ⟨_, [], hsingle fun _ _ => rfl⟩
  | map label image => exact ⟨_, [], hsingle fun _ _ => rfl⟩
  | filter inner keep => exact ⟨_, [], hsingle fun _ _ => rfl⟩
  | own label propose => exact ⟨_, [], hsingle fun _ _ => rfl⟩

/-- The box from which the step behind given steps starts if it is given none. -/
def boxBehind (start : Point) (steps : List (Option Point × Wiring)) : Point :=
  steps.foldl (fun box step => step.1.getD box) start

/-- The stages of steps in front of others and of those behind them.  The box between them is the
one from which the first step behind starts. -/
theorem stages_append (before after : List (Option Point × Wiring)) (box : Option Point)
    (w : Wiring) (start stop : Point) :
    stages (before ++ (box, w) :: after) start stop =
      stages before start (box.getD (boxBehind start before)) ++
        stages ((none, w) :: after) (box.getD (boxBehind start before)) stop := by
  induction before generalizing start with
  | nil => rfl
  | cons step before ih =>
      have hstop : stepStop (step.1.getD start) stop (before ++ (box, w) :: after)
          = stepStop (step.1.getD start) (box.getD (boxBehind (step.1.getD start) before))
              before := by
        cases before <;> rfl
      rw [List.cons_append, stages, ih, hstop]
      rfl

/-- Where stages lead lies in the box in which the last one ends. -/
theorem isInside_of_composite {steps : List (Option Point × Wiring)} (hsteps : steps ≠ [])
    {start stop p q : Point} (h : Stage.composite (stages steps start stop) p q) :
    q.isInside stop = true := by
  induction steps generalizing start p with
  | nil => exact absurd rfl hsteps
  | cons step rest ih =>
      obtain ⟨m, hfirst, hrest⟩ := h
      cases rest with
      | nil =>
          obtain rfl : m = q := hrest
          exact hfirst.2
      | cons next rest => exact ih (List.cons_ne_nil next rest) hrest

/-- The relation of a wiring in several steps as a single stage. -/
theorem passes_joint {first : Wiring} {rest : List (Option Point × Wiring)} {start stop : Point}
    {proposed : List Pair} (h : (joint first rest).pairs start stop = .ok proposed) {p q : Point} :
    Stage.Passes ⟨joint first rest, start, stop⟩ p q ↔
      p.isInside start = true
        ∧ Stage.composite (stages ((none, first) :: rest) start stop) p q := by
  simp only [Stage.Passes, h, Except.ok.injEq, exists_eq_left', mem_joint h]
  constructor
  · rintro ⟨hrest, _⟩
    exact hrest
  · rintro ⟨hp, hrest⟩
    exact ⟨⟨hp, hrest⟩, isInside_of_composite (List.cons_ne_nil _ _) hrest⟩

/-- Stages at the end may be put together, if those in front lead into the box between them. -/
theorem run_append_joint {front : List Stage} {start mid : Point}
    (hfront : ∀ p q, p.isInside start = true → Stage.composite front p q → q.isInside mid = true)
    (first : Wiring) (rest : List (Option Point × Wiring)) (stop : Point) :
    Stage.run start (front ++ [⟨joint first rest, mid, stop⟩])
      = Stage.run start (front ++ stages ((none, first) :: rest) mid stop) := by
  have hjoint := pairs_joint_eq first rest mid stop
  cases hback : (stages ((none, first) :: rest) mid stop).mapM Stage.kept with
  | error fault =>
      -- the joined step fails like the first of its own steps that does
      rw [Stage.run, hback] at hjoint
      rw [Stage.run, Stage.run, List.mapM_append, List.mapM_append, hback]
      simp only [List.mapM_cons, Stage.kept, hjoint]
      rfl
  | ok later =>
      rw [Stage.run, hback] at hjoint
      cases hsteps : front.mapM Stage.kept with
      | error fault =>
          rw [Stage.run, Stage.run, List.mapM_append, List.mapM_append, hsteps]
          rfl
      | ok steps =>
          have hflat : Stage.run start (front ++ stages ((none, first) :: rest) mid stop)
              = .ok (Sorted.ofList Pair.before
                  ((steps ++ later).foldl Stage.compose (start.box.map fun p => (p, p)))) := by
            rw [Stage.run, List.mapM_append, hsteps, hback]
            rfl
          obtain ⟨pairs, hpairs⟩ :
              ∃ pairs, Stage.run start (front ++ [⟨joint first rest, mid, stop⟩]) = .ok pairs := by
            rw [Stage.run, List.mapM_append, hsteps]
            simp only [List.mapM_cons, Stage.kept, hjoint]
            exact ⟨_, rfl⟩
          rw [hflat, hpairs]
          refine congrArg Except.ok (Stage.run_congr hpairs hflat fun p q hp => ?_)
          rw [Stage.composite_append, Stage.composite_append]
          refine exists_congr fun m => and_congr_right fun hm => ?_
          rw [Stage.composite_cons, Stage.composite_nil, Relation.comp_eq, passes_joint hjoint]
          exact and_iff_right (hfront p m hp hm)

/-- Steps at the end of a wiring in several steps may be put together. -/
theorem pairs_joint_nested (first : Wiring) (before after : List (Option Point × Wiring))
    (box : Option Point) (w : Wiring) (start stop : Point) :
    (joint first (before ++ (box, w) :: after)).pairs start stop
      = (joint first (before ++ [(box, joint w after)])).pairs start stop := by
  let front := (none, first) :: before
  have hflat := stages_append front after box w start stop
  have hnested := stages_append front [] box (joint w after) start stop
  rw [List.cons_append] at hflat hnested
  rw [pairs_joint_eq, pairs_joint_eq, hflat, hnested]
  refine (run_append_joint (fun p q _ h => ?_) w after stop).symm
  exact isInside_of_composite (List.cons_ne_nil _ _) h

/-- A wiring in several steps may be a single step. -/
theorem pairs_joint_joint (first : Wiring) (rest : List (Option Point × Wiring))
    (start stop : Point) :
    (joint (joint first rest) []).pairs start stop = (joint first rest).pairs start stop := by
  rw [pairs_joint_eq, pairs_joint_eq]
  have hfront (p q : Point) (hp : p.isInside start = true) (h : Stage.composite [] p q) :
      q.isInside start = true := by
    obtain rfl : p = q := h
    exact hp
  exact run_append_joint hfront first rest stop

/-- **Steps at the end may be put together.**  A wiring with steps behind it proposes the same
pairs, or fails in the same way, if the steps from one on are put together into a wiring of their
own that takes the box of the first of them; and a wiring in several steps may be the only step of
another. -/
theorem pairs_chain_nested (first : Wiring) (before after : List (Option Point × Wiring))
    (box : Option Point) (w : Wiring) (start stop : Point) :
    (first.chainAll (before ++ (box, w) :: after)).pairs start stop
        = (first.chainAll (before ++ [(box, (joint w []).chainAll after)])).pairs start stop ∧
    ∀ (w' : Wiring) (rest : List (Option Point × Wiring)),
      (joint (joint w' rest) []).pairs start stop = (joint w' rest).pairs start stop := by
  obtain ⟨w₀, rest, hchain⟩ := exists_chainAll first
  have hne (steps : List (Option Point × Wiring)) (step : Option Point × Wiring) :
      before ++ step :: steps ≠ [] := by simp
  refine ⟨?_, fun w' rest => pairs_joint_joint w' rest start stop⟩
  rw [hchain _ (hne after (box, w)), hchain _ (hne [] _), chainAll_joint, List.nil_append,
    ← List.append_assoc, ← List.append_assoc]
  exact pairs_joint_nested w₀ (rest ++ before) after box w start stop

/-- Steps in front may not be put together: the second step, to which the box in between is given,
would end in the box from which the first one starts. -/
example :
    (joint (dim true false false) [(some ⟨2, 1, 1⟩, straight), (none, straight)]).pairs .one
        ⟨2, 1, 1⟩ = .ok [(.origin, .origin), (.origin, ⟨1, 0, 0⟩)] ∧
    (joint (joint (dim true false false) [(some ⟨2, 1, 1⟩, straight)]) [(none, straight)]).pairs
        .one ⟨2, 1, 1⟩ = .ok [(.origin, .origin)] := by
  have hfront : (joint (dim true false false) [(some ⟨2, 1, 1⟩, straight)]).pairs .one .one
      = .ok [(.origin, .origin)] := by rw [pairs_joint_eq]; rfl
  constructor
  · rw [pairs_joint_eq]
    rfl
  · rw [pairs_joint_eq, Stage.run]
    simp only [stages, stepStop, Option.getD_none, List.mapM_cons, List.mapM_nil, Stage.kept,
      hfront]
    rfl

end Wiring

end Breadboard
