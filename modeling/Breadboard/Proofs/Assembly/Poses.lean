import Breadboard.Proofs.Assembly.Layout

/-!
**Places and turns given one by one.**

Calls that place a circuit and calls that turn it may come in any order, between calls about other
circuits, and may name their circuit or mean the one that was added last.  What comes out is read
off the calls circuit by circuit: a circuit stands where it was placed last, turned by all its turns
one after the other, and the circuits that were never placed are reported.

Main definitions:

* `Placements.Call`, `Placements.run` — calls that give or change places, one after the other;
* `Placements.directions` — what calls say, each under the name of its circuit;
* `Placements.pointsOf`, `Placements.turnsOf` — the points and the turns that calls give to a
  circuit, in their order;
* `Turn.successive` — turns one after the other.

Main results:

* `Placements.find?_step` — a call changes the pose of its circuit, and only one half of it;
* `Placements.find?_run` — **what is known of a circuit is read off the calls about it**;
* `Placements.gap?_run` — what a circuit lacks after calls;
* `Placements.arrange_run` — **manual positions are the fold of the calls that gave them**.
-/

set_option autoImplicit false
set_option relaxedAutoImplicit false

namespace Breadboard

/-- Turns one after the other, the first of the list first. -/
def Turn.successive (turns : List Turn) : Turn :=
  turns.foldl (fun done next => next.after done) .identity

namespace Placements

/-! ### Calls and what they say -/

/-- A call that gives or changes places, or tells which circuit was added last. -/
inductive Call where
  | noteAdded (name : String)
  | place (name : String) (point : Point)
  | rotate (name : String) (turn : Turn)
  | placeLast (point : Point)
  | rotateLast (turn : Turn)

/-- What is said of a circuit. -/
inductive Direction where
  /-- The circuit stands at a point. -/
  | stand (point : Point)
  /-- The circuit is turned further. -/
  | turn (turn : Turn)

namespace Direction

/-- The point to which the circuit is brought. -/
def point? : Direction → Option Point
  | stand point => some point
  | turn _ => none

/-- The turn by which the circuit is turned further. -/
def turn? : Direction → Option Turn
  | stand _ => none
  | turn t => some t

/-- What is known of a circuit after the direction, which changes one half only. -/
def apply (pose : Pose) : Direction → Pose
  | stand point => { pose with place := some point }
  | turn t => { pose with turn := t.after pose.turn }

/-- What is known of a circuit after the direction, if anything was known before. -/
def tell (known : Option Pose) (direction : Direction) : Option Pose :=
  some (direction.apply (known.getD .unknown))

end Direction

namespace Call

/-- What a call does. -/
def perform (p : Placements) : Call → Except Fault Placements
  | noteAdded name => .ok (p.noteAdded name)
  | place name point => .ok (p.place name point)
  | rotate name turn => .ok (p.rotate name turn)
  | placeLast point => p.placeLast point
  | rotateLast turn => p.rotateLast turn

/-- What a call says, under the name of its circuit, where `last` was added last. -/
def direction? (last : Option String) : Call → Option (String × Direction)
  | noteAdded _ => none
  | place name point => some (name, .stand point)
  | rotate name turn => some (name, .turn turn)
  | placeLast point => last.map fun name => (name, .stand point)
  | rotateLast turn => last.map fun name => (name, .turn turn)

/-- The circuit that was added last, after a call. -/
def lastAfter (last : Option String) : Call → Option String
  | noteAdded name => some name
  | _ => last

end Call

/-- The placements after a call; a call that fails changes nothing. -/
def step (p : Placements) (call : Call) : Placements :=
  match call.perform p with
  | .ok q => q
  | .error _ => p

/-- The placements after calls, some of which may have failed. -/
def run (calls : List Call) (p : Placements) : Placements := calls.foldl step p

/-- What calls say, each under the name of its circuit, where `last` was added last before. -/
def directions : Option String → List Call → List (String × Direction)
  | _, [] => []
  | last, call :: rest => (call.direction? last).toList ++ directions (call.lastAfter last) rest

/-- What is said of a circuit. -/
def about (name : String) (said : List (String × Direction)) : List Direction :=
  said.filterMap fun d => if d.1 = name then some d.2 else none

/-- The points at which calls place a circuit, in their order. -/
def pointsOf (name : String) (calls : List Call) : List Point :=
  (about name (directions none calls)).filterMap Direction.point?

/-- The turns by which calls turn a circuit, in their order. -/
def turnsOf (name : String) (calls : List Call) : List Turn :=
  (about name (directions none calls)).filterMap Direction.turn?

/-! ### Directions one after the other -/

namespace Direction

/-- Directions in any order lead to the last point, and to all turns one after the other. -/
theorem foldl_apply (said : List Direction) (pose : Pose) :
    said.foldl apply pose
      = ⟨(said.filterMap point?).getLast?.or pose.place,
          (said.filterMap turn?).foldl (fun done next => next.after done) pose.turn⟩ := by
  induction said generalizing pose with
  | nil => rfl
  | cons direction rest ih =>
      rw [List.foldl_cons, ih]
      cases direction with
      | stand point => simp [apply, point?, turn?, List.filterMap_cons, List.getLast?_cons]
      | turn t => rfl

/-- What is known already is changed by each direction. -/
theorem foldl_tell (said : List Direction) (pose : Pose) :
    said.foldl tell (some pose) = some (said.foldl apply pose) := by
  induction said generalizing pose with
  | nil => rfl
  | cons direction rest ih => exact ih (direction.apply pose)

/-- Something was said if a point or a turn was given. -/
theorem eq_nil_iff {said : List Direction} :
    said = [] ↔ said.filterMap point? = [] ∧ said.filterMap turn? = [] := by
  cases said with
  | nil => simp
  | cons direction rest => cases direction <;> simp [point?, turn?]

end Direction

/-! ### What calls leave behind -/

theorem about_append (name : String) (first second : List (String × Direction)) :
    about name (first ++ second) = about name first ++ about name second :=
  List.filterMap_append

theorem run_cons (call : Call) (rest : List Call) (p : Placements) :
    run (call :: rest) p = run rest (step p call) := rfl

theorem last_step (p : Placements) (call : Call) :
    (step p call).last = call.lastAfter p.last := by
  cases call with
  | noteAdded => rfl
  | place => rfl
  | rotate => rfl
  | placeLast point =>
      obtain ⟨poses, last⟩ := p
      cases last <;> rfl
  | rotateLast turn =>
      obtain ⟨poses, last⟩ := p
      cases last <;> rfl

/-- A call changes the poses as what it says, if it says something. -/
theorem poses_step (p : Placements) (call : Call) :
    (step p call).poses = match call.direction? p.last with
      | some (name, direction) => Keyed.insert name (direction.apply (p.pose name)) p.poses
      | none => p.poses := by
  cases call with
  | noteAdded => rfl
  | place => rfl
  | rotate => rfl
  | placeLast point =>
      obtain ⟨poses, last⟩ := p
      cases last <;> rfl
  | rotateLast turn =>
      obtain ⟨poses, last⟩ := p
      cases last <;> rfl

/-- **A call changes what is known of its circuit**, and nothing else. -/
theorem find?_step (p : Placements) (call : Call) (name : String) :
    Keyed.find? name (step p call).poses
      = (about name (call.direction? p.last).toList).foldl Direction.tell
          (Keyed.find? name p.poses) := by
  rw [poses_step]
  cases call.direction? p.last with
  | none => rfl
  | some said =>
      obtain ⟨other, direction⟩ := said
      simp only [Keyed.find?_insert, Option.toList_some]
      by_cases h : other = name
      · subst h
        simp [about, Direction.tell, pose]
      · simp [about, h]

/-- **What is known of a circuit is read off the calls about it.** -/
theorem find?_run (calls : List Call) (p : Placements) (name : String) :
    Keyed.find? name (run calls p).poses
      = (about name (directions p.last calls)).foldl Direction.tell
          (Keyed.find? name p.poses) := by
  induction calls generalizing p with
  | nil => rfl
  | cons call rest ih =>
      rw [run_cons, ih, find?_step, last_step, directions, about_append, List.foldl_append]

/-- What is known of a circuit after calls that begin with nothing. -/
theorem known_run (calls : List Call) (name : String) :
    Keyed.find? name (run calls .empty).poses
      = if pointsOf name calls = [] ∧ turnsOf name calls = [] then none
        else some ⟨(pointsOf name calls).getLast?, Turn.successive (turnsOf name calls)⟩ := by
  rw [find?_run, pointsOf, turnsOf, Turn.successive, empty]
  cases hsaid : about name (directions none calls) with
  | nil => rfl
  | cons direction rest =>
      have hsome : direction :: rest ≠ [] := List.cons_ne_nil _ _
      rw [ne_eq, Direction.eq_nil_iff] at hsome
      rw [if_neg hsome, Keyed.find?_nil, List.foldl_cons, Direction.tell, Direction.foldl_tell,
        Option.getD_none, ← List.foldl_cons, Direction.foldl_apply]
      simp [Pose.unknown]

/-- **A circuit stands where it was placed last, turned by all its turns.** -/
theorem pose_run (calls : List Call) (name : String) :
    (run calls .empty).pose name
      = ⟨(pointsOf name calls).getLast?, Turn.successive (turnsOf name calls)⟩ := by
  rw [pose, known_run]
  split
  · rename_i hnone
    rw [hnone.1, hnone.2]
    rfl
  · rfl

/-- **What a circuit lacks after calls**: a place if none was given, and it matters for the report
whether it was turned. -/
theorem gap?_run (calls : List Call) (name : String) :
    (run calls .empty).gap? name
      = if pointsOf name calls ≠ [] then none
        else if turnsOf name calls ≠ [] then some .onlyRotated
        else some .neverPlaced := by
  rw [gap?, known_run]
  by_cases hpoints : pointsOf name calls = []
  · by_cases hturns : turnsOf name calls = [] <;> simp [hpoints, hturns]
  · simp [hpoints]

/-- What is reported after calls: the circuits to which no point was given. -/
theorem gaps_run (calls : List Call) (names : List String) :
    (names.filterMap fun name => ((run calls .empty).gap? name).map fun gap => (name, gap))
      = (names.filter fun name => pointsOf name calls = []).map fun name =>
          (name, if turnsOf name calls ≠ [] then .onlyRotated else .neverPlaced) := by
  induction names with
  | nil => rfl
  | cons name rest ih =>
      rw [List.filterMap_cons, ih, gap?_run]
      by_cases hpoints : pointsOf name calls = []
      · by_cases hturns : turnsOf name calls = [] <;> simp [hpoints, hturns]
      · simp [hpoints]

/-- The places that are found, and what is reported otherwise. -/
theorem arrange_run_eq (calls : List Call) (names : List String) :
    (Positioner.manual (run calls .empty)).arrange names
      = if ∀ name ∈ names, pointsOf name calls ≠ [] then
          .ok (names.map fun name =>
            (name, (pointsOf name calls).getLast?.getD .origin,
              Turn.successive (turnsOf name calls)))
        else .error (.unplaced ((names.filter fun name => pointsOf name calls = []).map fun name =>
          (name, if turnsOf name calls ≠ [] then .onlyRotated else .neverPlaced))) := by
  rw [Positioner.arrange, gaps_run]
  simp only [pose_run, List.isEmpty_iff, List.map_eq_nil_iff, List.filter_eq_nil_iff,
    decide_eq_true_eq, ne_eq]

/-- Only what is known of the circuits of the assembly matters. -/
theorem arrange_congr {p q : Placements} {names : List String}
    (h : ∀ name ∈ names, Keyed.find? name q.poses = Keyed.find? name p.poses) :
    (Positioner.manual q).arrange names = (Positioner.manual p).arrange names := by
  have hpose : ∀ name ∈ names, q.pose name = p.pose name :=
    fun name hname => by rw [pose, pose, h name hname]
  have hgaps : (names.filterMap fun name => (q.gap? name).map fun gap => (name, gap))
      = names.filterMap fun name => (p.gap? name).map fun gap => (name, gap) :=
    List.filterMap_congr fun name hname => by rw [gap?, gap?, h name hname]
  have hseats : (names.map fun name =>
        (name, ((q.pose name).place.getD .origin, (q.pose name).turn)))
      = names.map fun name => (name, ((p.pose name).place.getD .origin, (p.pose name).turn)) :=
    List.map_congr_left fun name hname => by rw [hpose name hname]
  simp only [Positioner.arrange, hgaps, hseats]

/-- **Manual positions are the fold of the calls that gave them.**  Whatever circuits the calls are
about and in whatever order, the circuits of an assembly are arranged exactly if each of them was
placed; other circuits do not matter.  Each then stands at its last point, turned by all its turns
in the order of the calls.  Otherwise the circuits that were never placed are reported in the order
of the assembly, and it is told of each whether it was turned.  So it is all one how the points and
the turns of a circuit, and those of different circuits, were interleaved. -/
theorem arrange_run (calls : List Call) (names : List String) :
    ((∃ seats, (Positioner.manual (run calls .empty)).arrange names = .ok seats)
      ↔ ∀ name ∈ names, pointsOf name calls ≠ []) ∧
    (∀ seats, (Positioner.manual (run calls .empty)).arrange names = .ok seats →
      List.Forall₂ (fun seat name => seat.1 = name
          ∧ (pointsOf name calls).getLast? = some seat.2.1
          ∧ seat.2.2 = Turn.successive (turnsOf name calls)) seats names) ∧
    ((¬ ∀ name ∈ names, pointsOf name calls ≠ []) →
      ∃ gaps, (Positioner.manual (run calls .empty)).arrange names = .error (.unplaced gaps)
        ∧ gaps.map (fun gap => (gap.1, gap.2.message))
          = (names.filter fun name => pointsOf name calls = []).map fun name =>
              (name, if turnsOf name calls ≠ [] then "rotated but never placed"
                else "never placed")) ∧
    ∀ calls' : List Call,
      (∀ name ∈ names, pointsOf name calls' = pointsOf name calls
        ∧ turnsOf name calls' = turnsOf name calls) →
      (Positioner.manual (run calls' .empty)).arrange names
        = (Positioner.manual (run calls .empty)).arrange names := by
  refine ⟨?_, fun seats hseats => ?_, fun hmissing => ?_, fun calls' hsame => ?_⟩
  · rw [arrange_run_eq]
    split
    · rename_i hplaced
      exact iff_of_true ⟨_, rfl⟩ hplaced
    · rename_i hmissing
      exact iff_of_false (by rintro ⟨seats, h⟩; cases h) hmissing
  · rw [arrange_run_eq] at hseats
    split at hseats
    · rename_i hplaced
      cases hseats
      rw [List.forall₂_map_left_iff, List.forall₂_same]
      intro name hname
      refine ⟨rfl, ?_, rfl⟩
      obtain ⟨point, hpoint⟩ := Option.isSome_iff_exists.1
        (List.getLast?_isSome.2 (hplaced name hname))
      rw [hpoint, Option.getD_some]
    · cases hseats
  · rw [arrange_run_eq, if_neg hmissing]
    refine ⟨_, rfl, ?_⟩
    rw [List.map_map]
    refine List.map_congr_left fun name _ => ?_
    by_cases hturns : turnsOf name calls = [] <;> simp [hturns, PlacementGap.message]
  · refine arrange_congr fun name hname => ?_
    obtain ⟨hpoints, hturns⟩ := hsame name hname
    rw [known_run, known_run, hpoints, hturns]

/-- Calls about two circuits and about one that no assembly holds, mixed. -/
def mixed : List Call :=
  [.place "ghost" ⟨9, 9, 9⟩, .noteAdded "a", .rotate "b" .quarterX, .rotateLast .quarterX,
    .place "b" ⟨1, 2, 3⟩, .placeLast ⟨0, 0, 7⟩, .rotate "b" .quarterZ, .rotate "c" .quarterZ,
    .noteAdded "b", .placeLast ⟨4, 5, 6⟩]

theorem arrange_run_mixed :
    ((∃ seats, (Positioner.manual (run mixed .empty)).arrange ["b", "a"] = .ok seats)
      ∧ (Positioner.manual (run mixed .empty)).arrange ["b", "a"]
        = .ok [("b", ⟨4, 5, 6⟩, .after .quarterZ .quarterX), ("a", ⟨0, 0, 7⟩, .quarterX)]
      ∧ Turn.after .quarterZ .quarterX ≠ Turn.after .quarterX .quarterZ) ∧
    (∃ gaps, (Positioner.manual (run mixed .empty)).arrange ["d", "b", "c"]
        = .error (.unplaced gaps)
      ∧ gaps.map (fun gap => (gap.1, gap.2.message))
        = [("d", "never placed"), ("c", "rotated but never placed")]) ∧
    pointsOf "b" mixed = [⟨1, 2, 3⟩, ⟨4, 5, 6⟩] ∧ turnsOf "b" mixed = [.quarterX, .quarterZ] := by
  have hplaced : ∀ name ∈ ["b", "a"], pointsOf name mixed ≠ [] := by decide
  have hmissing : ¬ ∀ name ∈ ["d", "b", "c"], pointsOf name mixed ≠ [] := by decide
  obtain ⟨seats, hseats⟩ := (arrange_run mixed ["b", "a"]).1.2 hplaced
  obtain ⟨gaps, hfails, hgaps⟩ := (arrange_run mixed ["d", "b", "c"]).2.2.1 hmissing
  exact ⟨⟨⟨seats, hseats⟩, rfl, by decide⟩, ⟨gaps, hfails, hgaps.trans (by decide)⟩,
    by decide, by decide⟩

end Placements

end Breadboard
