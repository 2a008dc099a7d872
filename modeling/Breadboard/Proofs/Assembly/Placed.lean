import Breadboard.Proofs.Assembly.Layout
import Breadboard.Proofs.Assembly.Building

/-!
**Which circuits have places.**

Where places are given one by one, a circuit has a place if some call gave it one: by its name, also
before the circuit was added, or as the one that was added last.  Turning a circuit gives it no
place and takes none away, and neither does any other call.

Main definitions:

* `Assembly.Call.placed`, `Assembly.placedBy` — the circuits to which calls give places;
* `Assembly.Places` — exactly the listed circuits have a place.

Main results:

* `Placements.gap?_place`, `Placements.gap?_rotate` — what a call does to the circuits that lack a
  place;
* `Assembly.places_run` — **the circuits that have a place are those to which the calls gave one**;
* `Assembly.Places.arrange_eq_error` — **the report names the circuits to which no call gave a
  place**. -/

set_option autoImplicit false
set_option relaxedAutoImplicit false

namespace Breadboard

namespace Placements

variable {p : Placements} {name other : String}

/-- A circuit lacks nothing if what is known of it includes a place. -/
theorem gap?_eq_none_iff_pose : p.gap? name = none ↔ (p.pose name).place.isSome = true := by
  rw [gap?, pose]
  cases Keyed.find? name p.poses with
  | none => simp [Pose.unknown]
  | some pose => cases hplace : pose.place <;> simp [hplace]

/-- A circuit that is given a place lacks nothing. -/
theorem gap?_place (point : Point) :
    (p.place name point).gap? other = none ↔ p.gap? other = none ∨ other = name := by
  rw [gap?_eq_none_iff_pose, gap?_eq_none_iff_pose, pose_place]
  by_cases h : name = other
  · rw [if_pos h]
    simp [h]
  · rw [if_neg h]
    simp [Ne.symm h]

/-- A circuit that is turned lacks what it lacked before. -/
theorem gap?_rotate (turn : Turn) :
    (p.rotate name turn).gap? other = none ↔ p.gap? other = none := by
  rw [gap?_eq_none_iff_pose, gap?_eq_none_iff_pose, pose_rotate]
  by_cases h : name = other
  · rw [if_pos h, h]
  · rw [if_neg h]

end Placements

namespace Assembly

/-! ### The circuits to which calls give places -/

/-- The circuit to which a call gives a place, if it does. -/
def Call.placed (a : Assembly) : Call → Option String
  | .place name _ => some name
  | .placeLast _ => (Keyed.names a.schemes).getLast?
  | _ => none

/-- The circuits to which calls give places, in the order of the calls. -/
def placedBy : List Call → Assembly → List String
  | [], _ => []
  | call :: rest, a => (call.placed a).toList ++ placedBy rest (final call.perform a)

/-- The places are given one by one, exactly the listed circuits have one, and the circuit that was
added last is known as such. -/
def Places (placed : List String) (a : Assembly) : Prop :=
  ∃ p, a.positioner = .manual p ∧ p.last = (Keyed.names a.schemes).getLast?
    ∧ ∀ name, p.gap? name = none ↔ name ∈ placed

theorem places_empty (config : CompileConfig) : Places [] (empty (.manual .empty) config) :=
  ⟨.empty, rfl, rfl, fun name => by simp [Placements.gap?, Placements.empty]⟩

variable {placed : List String} {a b : Assembly}

/-- Only the circuits and their places matter. -/
theorem Places.congr (h : Places placed a) (hpositioner : b.positioner = a.positioner)
    (hschemes : b.schemes = a.schemes) : Places placed b := by
  obtain ⟨p, hp, hlast, hgaps⟩ := h
  exact ⟨p, hpositioner.trans hp, hschemes ▸ hlast, hgaps⟩

theorem Places.pushPlan (h : Places placed a) (side : Side) (plan : SlotPlan) :
    Places placed (a.pushPlan side plan) := by
  refine h.congr ?_ ?_ <;> cases side <;> rfl

/-- What a call leaves behind that gives or changes places. -/
theorem final_arrangeBy {p : Placements} (hp : a.positioner = .manual p)
    (f : Placements → Except Fault Placements) :
    final (arrangeBy f) a = match f p with
      | .ok q => { a with positioner := .manual q }
      | .error _ => a := by
  obtain ⟨positioner, config, schemes, links, inputs, outputs, consumed⟩ := a
  obtain rfl : positioner = .manual p := hp
  have hplacements : placements ⟨.manual p, config, schemes, links, inputs, outputs, consumed⟩
      = .ok p ⟨.manual p, config, schemes, links, inputs, outputs, consumed⟩ := rfl
  rw [arrangeBy, final_bind_of_ok hplacements]
  cases hf : f p <;> rfl

/-- A circuit that is added is the last one, and places stay. -/
theorem Places.noteAdded (h : Places placed a) (name : String) (c : Circuit) :
    Places placed { a with
      schemes := a.schemes ++ [(name, c)]
      positioner := a.positioner.noteAdded name } := by
  obtain ⟨p, hp, _, hgaps⟩ := h
  refine ⟨p.noteAdded name, by rw [hp]; rfl, ?_, hgaps⟩
  simp [Keyed.names, Placements.noteAdded]

/-- A circuit that is turned gets no place and loses none. -/
theorem Places.rotate (h : Places placed a) {p : Placements} (hp : a.positioner = .manual p)
    (name : String) (turn : Turn) :
    Places placed { a with positioner := .manual (p.rotate name turn) } := by
  obtain ⟨q, hq, hlast, hgaps⟩ := h
  obtain rfl : p = q := Positioner.manual.inj (hp.symm.trans hq)
  exact ⟨_, rfl, hlast, fun other => (Placements.gap?_rotate turn).trans (hgaps other)⟩

/-- A circuit that is placed is one more with a place. -/
theorem Places.place (h : Places placed a) {p : Placements} (hp : a.positioner = .manual p)
    (name : String) (point : Point) :
    Places (placed ++ [name]) { a with positioner := .manual (p.place name point) } := by
  obtain ⟨q, hq, hlast, hgaps⟩ := h
  obtain rfl : p = q := Positioner.manual.inj (hp.symm.trans hq)
  refine ⟨_, rfl, hlast, fun other => ?_⟩
  rw [Placements.gap?_place, hgaps, List.mem_append, List.mem_singleton]

/-- Calls that do not arrange circuits keep all places. -/
theorem Call.keeps_places {call : Call} (h : call.arranges = false) :
    Keeps (Places placed) call.perform := by
  refine keeps_of_change fun a b ha hchange => ?_
  cases hchange with
  | checked => exact ha.congr rfl rfl
  | @added _ _ _ name c => exact ha.noteAdded name c
  | connected => exact ha.congr rfl rfl
  | arranged _ p harranges => rw [h] at harranges; cases harranges
  | @planned side p => exact ha.pushPlan side p
  | @forwarded side _ _ _ _ _ _ p => exact ha.pushPlan side p

/-- **Every call gives a place to the circuits that it places, and to no others.** -/
theorem Call.places_perform (h : Places placed a) (call : Call) :
    Places (placed ++ (call.placed a).toList) (final call.perform a) := by
  have ⟨p, hp, hlast, _⟩ := h
  have hother (harranges : call.arranges = false) (hnone : call.placed a = none) :
      Places (placed ++ (call.placed a).toList) (final call.perform a) := by
    rw [hnone, Option.toList_none, List.append_nil]
    exact Call.keeps_places harranges a h
  cases call with
  | place name point =>
      show Places (placed ++ [name]) (final (arrangeBy _) a)
      rw [final_arrangeBy hp]
      exact h.place hp name point
  | rotate name turn =>
      show Places (placed ++ []) (final (arrangeBy _) a)
      rw [final_arrangeBy hp, List.append_nil]
      exact h.rotate hp name turn
  | placeLast point =>
      show Places (placed ++ (Keyed.names a.schemes).getLast?.toList) (final (arrangeBy _) a)
      rw [final_arrangeBy hp, Placements.placeLast, Placements.lastName, ← hlast]
      -- without circuits there is nothing to place
      cases p.last with
      | none => simpa using h
      | some name => exact h.place hp name point
  | rotateLast turn =>
      show Places (placed ++ []) (final (arrangeBy _) a)
      rw [final_arrangeBy hp, List.append_nil, Placements.rotateLast, Placements.lastName]
      cases p.last with
      | none => exact h
      | some name => exact h.rotate hp name turn
  | _ => exact hother rfl rfl

/-- **The circuits that have a place are those to which the calls gave one.** -/
theorem places_run (h : Places placed a) (calls : List Call) :
    Places (placed ++ placedBy calls a) (run calls a) := by
  induction calls generalizing placed a with
  | nil => rw [placedBy, List.append_nil]; exact h
  | cons call rest ih =>
      rw [placedBy, ← List.append_assoc]
      exact ih (Call.places_perform h call)

/-! ### Arranging the circuits -/

/-- If all circuits have places, these are found. -/
theorem Places.exists_arrange (h : Places placed a)
    (hall : ∀ name ∈ Keyed.names a.schemes, name ∈ placed) :
    ∃ places, a.positioner.arrange (Keyed.names a.schemes) = .ok places := by
  obtain ⟨p, hp, _, hgaps⟩ := h
  rw [hp]
  exact ⟨_, arrange_manual_eq_ok_iff.2 ⟨fun name hname => (hgaps name).2 (hall name hname), rfl⟩⟩

/-- **The report names the circuits to which no call gave a place**, in their order. -/
theorem Places.arrange_eq_error (h : Places placed a)
    (hsome : ∃ name ∈ Keyed.names a.schemes, name ∉ placed) :
    ∃ gaps, a.positioner.arrange (Keyed.names a.schemes) = .error (.unplaced gaps)
      ∧ Keyed.names gaps = (Keyed.names a.schemes).filter fun name => name ∉ placed := by
  obtain ⟨p, hp, _, hgaps⟩ := h
  have hnames : ∀ names : List String,
      Keyed.names (names.filterMap fun name => (p.gap? name).map fun gap => (name, gap))
        = names.filter fun name => name ∉ placed := by
    intro names
    induction names with
    | nil => rfl
    | cons name rest ih =>
        rw [List.filterMap_cons, List.filter_cons, ← ih]
        cases hgap : p.gap? name with
        | none => simp [(hgaps name).1 hgap]
        | some gap =>
            have hmissing : name ∉ placed := by
              rw [← hgaps, hgap]
              exact Option.some_ne_none gap
            simp [hmissing, Keyed.names]
  have hreported := hnames (Keyed.names a.schemes)
  obtain ⟨name, hname, hmissing⟩ := hsome
  rw [hp, Positioner.arrange]
  refine ⟨_, if_neg fun hempty => ?_, hreported⟩
  rw [List.isEmpty_iff.1 hempty] at hreported
  have hfound : name ∈ (Keyed.names a.schemes).filter fun name => name ∉ placed :=
    List.mem_filter.2 ⟨hname, by simpa using hmissing⟩
  rw [← hreported] at hfound
  cases hfound

end Assembly

end Breadboard
