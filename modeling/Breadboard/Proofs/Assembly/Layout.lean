import Breadboard.Assembly.Linking
import Breadboard.Proofs.Circuit.InRange

/-!
**The blocks of an assembly.**

The units of all circuits are numbered through in the order in which the circuits were added.  The
block of a circuit begins behind the units of the circuits before it, and as names are different no
two blocks share a unit.

Main definitions:

* `Assembly.offset` — the number of units before a circuit;
* `Assembly.scope` — the slots of one side that paths can name, by the circuits alone;
* `Assembly.blockOf` — the block of one circuit.

Main results:

* `Assembly.offset_add_inj` — **different units of circuits have different numbers**;
* `Assembly.getElem?_flatMap_offset` — the unit with a given number, in lists joined in order;
* `Assembly.layOut_of_movable`, `Assembly.layOut_of_not_movable` — **the blocks of all circuits**,
  which exist exactly if all of them can be moved;
* `Assembly.find?_arrange` — every circuit of an assembly that was arranged has a place.
-/

set_option autoImplicit false
set_option relaxedAutoImplicit false

namespace Breadboard

namespace Assembly

/-! ### Numbers of units -/

/-- The number of units of the circuits that were added before a name. -/
def offset (schemes : Keyed Circuit) (name : String) : Nat :=
  ((schemes.takeWhile fun s => s.1 != name).flatMap fun s => s.2.units).length

/-- The number of units of all circuits. -/
def unitCount (schemes : Keyed Circuit) : Nat := (schemes.flatMap fun s => s.2.units).length

theorem offset_cons_self (name : String) (c : Circuit) (rest : Keyed Circuit) :
    offset ((name, c) :: rest) name = 0 := by
  simp [offset]

theorem offset_cons_of_ne {name other : String} (c : Circuit) (rest : Keyed Circuit)
    (h : name ≠ other) :
    offset ((name, c) :: rest) other = c.units.length + offset rest other := by
  simp [offset, h]

theorem unitCount_cons (name : String) (c : Circuit) (rest : Keyed Circuit) :
    unitCount ((name, c) :: rest) = c.units.length + unitCount rest := by
  simp [unitCount]

/-- Circuits that are added later do not move the units of those before them. -/
theorem offset_append_of_mem {first : Keyed Circuit} (second : Keyed Circuit) {name : String}
    (h : name ∈ Keyed.names first) : offset (first ++ second) name = offset first name := by
  induction first with
  | nil => cases h
  | cons s rest ih =>
      obtain ⟨n, d⟩ := s
      rw [List.cons_append]
      by_cases hn : n = name
      · subst hn
        rw [offset_cons_self, offset_cons_self]
      · have hrest : name ∈ Keyed.names rest := (List.mem_cons.1 h).resolve_left (Ne.symm hn)
        rw [offset_cons_of_ne d _ hn, offset_cons_of_ne d _ hn, ih hrest]

/-- Circuits that were added before move the units of those behind them. -/
theorem offset_append_of_not_mem {first : Keyed Circuit} (second : Keyed Circuit) {name : String}
    (h : name ∉ Keyed.names first) :
    offset (first ++ second) name = unitCount first + offset second name := by
  induction first with
  | nil => rw [List.nil_append, show unitCount [] = 0 from rfl, Nat.zero_add]
  | cons s rest ih =>
      obtain ⟨n, d⟩ := s
      obtain ⟨hn, hrest⟩ : name ≠ n ∧ name ∉ Keyed.names rest := by simpa [Keyed.names] using h
      rw [List.cons_append, offset_cons_of_ne d _ (Ne.symm hn), ih hrest, unitCount_cons,
        Nat.add_assoc]

theorem unitCount_append (first second : Keyed Circuit) :
    unitCount (first ++ second) = unitCount first + unitCount second := by
  simp [unitCount]

/-- The names of the later circuits are not that of the first. -/
theorem ne_of_mem_tail {name : String} {c : Circuit} {rest : Keyed Circuit}
    (hnames : (Keyed.names ((name, c) :: rest)).Nodup) {other : String} {d : Circuit}
    (h : (other, d) ∈ rest) : name ≠ other := by
  rintro rfl
  exact (List.nodup_cons.1 hnames).1 (List.mem_map.2 ⟨(name, d), h, rfl⟩)

/-- The numbers of a circuit's units are below the number of all units. -/
theorem offset_add_lt {schemes : Keyed Circuit} {name : String} {c : Circuit}
    (h : (name, c) ∈ schemes) (hnames : (Keyed.names schemes).Nodup) {i : Nat}
    (hi : i < c.units.length) : offset schemes name + i < unitCount schemes := by
  induction schemes with
  | nil => cases h
  | cons s rest ih =>
      obtain ⟨n, d⟩ := s
      rw [unitCount_cons]
      rcases List.mem_cons.1 h with e | h
      · cases e
        rw [offset_cons_self]
        omega
      · rw [offset_cons_of_ne d rest (ne_of_mem_tail hnames h)]
        have hlt := ih h (List.nodup_cons.1 hnames).2
        omega

/-- **Different units of circuits have different numbers.** -/
theorem offset_add_inj {schemes : Keyed Circuit} (hnames : (Keyed.names schemes).Nodup)
    {name name' : String} {c c' : Circuit} (h : (name, c) ∈ schemes) (h' : (name', c') ∈ schemes)
    {i j : Nat} (hi : i < c.units.length) (hj : j < c'.units.length) :
    offset schemes name + i = offset schemes name' + j ↔ name = name' ∧ i = j := by
  constructor
  · intro e
    induction schemes with
    | nil => cases h
    | cons s rest ih =>
        obtain ⟨n, d⟩ := s
        rcases List.mem_cons.1 h with eh | h₁ <;> rcases List.mem_cons.1 h' with eh' | h₂
        · cases eh; cases eh'
          exact ⟨rfl, by omega⟩
        · -- one unit is in the first block, the other behind it
          cases eh
          rw [offset_cons_self, offset_cons_of_ne c rest (ne_of_mem_tail hnames h₂)] at e
          omega
        · cases eh'
          rw [offset_cons_self, offset_cons_of_ne c' rest (ne_of_mem_tail hnames h₁)] at e
          omega
        · rw [offset_cons_of_ne d rest (ne_of_mem_tail hnames h₁),
            offset_cons_of_ne d rest (ne_of_mem_tail hnames h₂)] at e
          exact ih (List.nodup_cons.1 hnames).2 h₁ h₂ (by omega)
  · rintro ⟨rfl, rfl⟩
    rfl

/-- The entry with a given number in lists that are joined in order, one for each circuit. -/
theorem getElem?_flatMap_offset {α : Type} {schemes : Keyed Circuit}
    {f : String × Circuit → List α} (hf : ∀ s ∈ schemes, (f s).length = s.2.units.length)
    (hnames : (Keyed.names schemes).Nodup) {name : String} {c : Circuit}
    (h : (name, c) ∈ schemes) {i : Nat} (hi : i < c.units.length) :
    (schemes.flatMap f)[offset schemes name + i]? = (f (name, c))[i]? := by
  induction schemes with
  | nil => cases h
  | cons s rest ih =>
      obtain ⟨n, d⟩ := s
      have hd : (f (n, d)).length = d.units.length := hf (n, d) List.mem_cons_self
      rw [List.flatMap_cons]
      rcases List.mem_cons.1 h with e | h
      · cases e
        rw [offset_cons_self, Nat.zero_add, List.getElem?_append_left (by omega)]
      · rw [offset_cons_of_ne d rest (ne_of_mem_tail hnames h), Nat.add_assoc,
          List.getElem?_append_right (by omega), hd, Nat.add_sub_cancel_left]
        exact ih (fun t ht => hf t (List.mem_cons_of_mem _ ht)) (List.nodup_cons.1 hnames).2 h

theorem length_flatMap_units {α : Type} {schemes : Keyed Circuit}
    {f : String × Circuit → List α} (hf : ∀ s ∈ schemes, (f s).length = s.2.units.length) :
    (schemes.flatMap f).length = unitCount schemes := by
  rw [unitCount, List.length_flatMap, List.length_flatMap]
  exact congrArg List.sum (List.map_congr_left hf)

/-! ### The blocks -/

/-- The slots of one side that paths can name: those of all circuits, each with the number of units
before it. -/
def scope (schemes : Keyed Circuit) (side : Side) : Scope :=
  schemes.map fun s => ⟨s.1, offset schemes s.1, s.2.slots side⟩

/-- The place and the turn of a circuit. -/
def seat (places : Keyed (Point × Turn)) (name : String) : Point × Turn :=
  (Keyed.find? name places).getD (.origin, .identity)

/-- The units of a circuit as they stand in the assembly before any connection is drawn. -/
def seated (places : Keyed (Point × Turn)) (first : Int) (s : String × Circuit) : List Element :=
  s.2.units.map (Circuit.relocated s.2.corner (seat places s.1).1 (seat places s.1).2 first)

/-- The block of a circuit; `base` units stand before those of all circuits. -/
def blockOf (places : Keyed (Point × Turn)) (base : Int) (schemes : Keyed Circuit)
    (s : String × Circuit) : Block where
  name := s.1
  offset := base + offset schemes s.1
  units := seated places (base + offset schemes s.1) s
  inputs := s.2.inputs
  outputs := s.2.outputs

/-- The blocks behind the first one begin behind its units. -/
theorem map_blockOf_cons (places : Keyed (Point × Turn)) (base : Int) {name : String}
    {c : Circuit} {rest : Keyed Circuit} (hnames : (Keyed.names ((name, c) :: rest)).Nodup) :
    ((name, c) :: rest).map (blockOf places base ((name, c) :: rest))
      = ⟨name, base, seated places base (name, c), c.inputs, c.outputs⟩
        :: rest.map (blockOf places (base + c.units.length) rest) := by
  rw [List.map_cons]
  congr 1
  · simp [blockOf, offset_cons_self]
  · refine List.map_congr_left ?_
    intro s hs
    have hoffset : base + (offset ((name, c) :: rest) s.1 : Int)
        = base + c.units.length + offset rest s.1 := by
      rw [offset_cons_of_ne c rest (ne_of_mem_tail hnames hs)]
      omega
    simp only [blockOf, hoffset]

section LayOut

variable {places : Keyed (Point × Turn)} {base : Int} {schemes : Keyed Circuit}

/-- Circuits that can be moved are laid out. -/
theorem layOut_of_movable (hnames : (Keyed.names schemes).Nodup)
    (h : ∀ s ∈ schemes, s.2.Movable) :
    layOut places base schemes = .ok (schemes.map (blockOf places base schemes)) := by
  induction schemes generalizing base with
  | nil => rfl
  | cons s rest ih =>
      obtain ⟨name, c⟩ := s
      rw [map_blockOf_cons places base hnames]
      have hlater : layOut places (base + c.units.length) rest
          = .ok (rest.map (blockOf places (base + c.units.length) rest)) :=
        ih (List.nodup_cons.1 hnames).2 fun t ht => h t (List.mem_cons_of_mem _ ht)
      refine Fault.bind_eq_ok_iff.2 ⟨_, Circuit.relocate_of_movable base _ _
        (h (name, c) List.mem_cons_self), Fault.bind_eq_ok_iff.2 ⟨_, ?_, rfl⟩⟩
      rw [List.length_map]
      exact hlater

/-- If some circuit cannot be moved, the circuits are not laid out. -/
theorem layOut_of_not_movable (h : ∃ s ∈ schemes, ¬ s.2.Movable) :
    layOut places base schemes = .error .outOfRange := by
  induction schemes generalizing base with
  | nil => obtain ⟨s, hs, _⟩ := h; cases hs
  | cons s rest ih =>
      obtain ⟨name, c⟩ := s
      by_cases hfirst : c.Movable
      · have hlater : ∃ t ∈ rest, ¬ t.2.Movable := by
          obtain ⟨t, ht, hfar⟩ := h
          rcases List.mem_cons.1 ht with rfl | ht
          · exact absurd hfirst hfar
          · exact ⟨t, ht, hfar⟩
        simp only [layOut, Circuit.relocate_of_movable base _ _ hfirst, ih hlater, bind,
          Except.bind]
      · simp only [layOut, Circuit.relocate_of_not_movable base _ _ hfirst, bind, Except.bind]

/-- Circuits that are laid out can be moved. -/
theorem movable_of_layOut {blocks : List Block} (h : layOut places base schemes = .ok blocks) :
    ∀ s ∈ schemes, s.2.Movable := by
  by_contra hno
  push Not at hno
  rw [layOut_of_not_movable hno] at h
  cases h

/-- **The blocks of all circuits**, each of which has a bounding box. -/
theorem layOut_eq_ok {blocks : List Block} (hnames : (Keyed.names schemes).Nodup)
    (h : layOut places base schemes = .ok blocks) :
    blocks = schemes.map (blockOf places base schemes)
      ∧ ∀ s ∈ schemes, ∃ box, Circuit.boundingBox s.2.units = .ok box := by
  have hmovable := movable_of_layOut h
  rw [layOut_of_movable hnames hmovable] at h
  exact ⟨(Except.ok.inj h).symm, fun s hs => (hmovable s hs).box⟩

end LayOut

/-- Paths name the slots of the circuits. -/
theorem scopeOf_map_blockOf (places : Keyed (Point × Turn)) (schemes : Keyed Circuit)
    (side : Side) : scopeOf (schemes.map (blockOf places 0 schemes)) side = scope schemes side := by
  rw [scopeOf, scope, List.map_map]
  refine List.map_congr_left ?_
  intro s _
  cases side <;> simp [blockOf, Block.scopeEntry, Circuit.slots]

/-- The units of all blocks. -/
theorem flatMap_units_map_blockOf (places : Keyed (Point × Turn)) (schemes : Keyed Circuit) :
    (schemes.map (blockOf places 0 schemes)).flatMap Block.units
      = schemes.flatMap fun s => seated places (offset schemes s.1) s := by
  rw [List.flatMap_map]
  simp [blockOf]

/-! ### Places -/

theorem find?_map_names {α : Type} {names : List String} (f : String → α) {name : String}
    (h : name ∈ names) : Keyed.find? name (names.map fun n => (n, f n)) = some (f name) := by
  induction names with
  | nil => cases h
  | cons n rest ih =>
      rw [List.map_cons, Keyed.find?_cons]
      split
      · rename_i e; rw [e]
      · rename_i hne
        rcases List.mem_cons.1 h with e | h
        · exact absurd e.symm hne
        · exact ih h

/-- The places that are given one by one: every circuit has one, and they are the places of the
result. -/
theorem arrange_manual_eq_ok_iff {p : Placements} {names : List String}
    {places : Keyed (Point × Turn)} :
    (Positioner.manual p).arrange names = .ok places ↔
      (∀ name ∈ names, p.gap? name = none)
        ∧ places = names.map fun name => (name, ((p.pose name).place.getD .origin,
            (p.pose name).turn)) := by
  have hgaps : (names.filterMap fun name => (p.gap? name).map fun gap => (name, gap)).isEmpty = true
      ↔ ∀ name ∈ names, p.gap? name = none := by
    rw [List.isEmpty_iff, List.filterMap_eq_nil_iff]
    simp only [Option.map_eq_none_iff]
  simp only [Positioner.arrange]
  split
  · rename_i h
    exact ⟨fun e => ⟨hgaps.1 h, (Except.ok.inj e).symm⟩, fun e => congrArg Except.ok e.2.symm⟩
  · rename_i h
    refine ⟨fun e => ?_, fun e => absurd (hgaps.2 e.1) h⟩
    cases e

/-- A circuit lacks nothing if it has a pose with a place. -/
theorem gap?_eq_none_iff {p : Placements} {name : String} :
    p.gap? name = none ↔ ∃ place turn, Keyed.find? name p.poses = some ⟨some place, turn⟩ := by
  rw [Placements.gap?]
  cases Keyed.find? name p.poses with
  | none => simp
  | some pose =>
      obtain ⟨place, turn⟩ := pose
      cases place <;> simp

/-- Places that are given one by one are known if every circuit has a pose with a place. -/
theorem exists_arrange_manual_iff {p : Placements} {names : List String} :
    (∃ places, (Positioner.manual p).arrange names = .ok places) ↔
      ∀ name ∈ names, ∃ place turn, Keyed.find? name p.poses = some ⟨some place, turn⟩ := by
  simp only [arrange_manual_eq_ok_iff, gap?_eq_none_iff, exists_and_left, exists_eq, and_true]

/-- A circuit of an assembly whose places are given one by one has the place that was given. -/
theorem exists_pose {p : Placements} {names : List String} {places : Keyed (Point × Turn)}
    (h : (Positioner.manual p).arrange names = .ok places) {name : String} (hname : name ∈ names) :
    ∃ place turn, Keyed.find? name p.poses = some ⟨some place, turn⟩
      ∧ seat places name = (place, turn) := by
  obtain ⟨hgaps, rfl⟩ := arrange_manual_eq_ok_iff.1 h
  have hgap := hgaps name hname
  rw [seat, find?_map_names _ hname]
  simp only [Placements.gap?] at hgap
  split at hgap
  · cases hgap
  · rename_i pose hpose
    obtain ⟨place, turn⟩ := pose
    cases place with
    | none => cases hgap
    | some place =>
        refine ⟨place, turn, hpose, ?_⟩
        simp only [Placements.pose, hpose, Option.getD_some]

/-- A circuit that has a pose with a place stands there. -/
theorem seat_of_pose {p : Placements} {names : List String} {places : Keyed (Point × Turn)}
    (h : (Positioner.manual p).arrange names = .ok places) {name : String} (hname : name ∈ names)
    {place : Point} {turn : Turn} (hpose : Keyed.find? name p.poses = some ⟨some place, turn⟩) :
    seat places name = (place, turn) := by
  obtain ⟨place', turn', hfound, hseat⟩ := exists_pose h hname
  rw [hpose] at hfound
  cases hfound
  exact hseat

/-- Every circuit of an assembly that was arranged has a place. -/
theorem find?_arrange {positioner : Positioner} {names : List String}
    {places : Keyed (Point × Turn)} (h : positioner.arrange names = .ok places) {name : String}
    (hname : name ∈ names) : ∃ place turn, Keyed.find? name places = some (place, turn) := by
  cases positioner with
  | manual p =>
      simp only [Positioner.arrange] at h
      split at h
      · cases h
        exact ⟨_, _, find?_map_names _ hname⟩
      · cases h
  | listed known =>
      simp only [Positioner.arrange] at h
      split at h
      · split at h
        · cases h
          exact ⟨_, _, find?_map_names _ hname⟩
        · cases h
      · cases h

end Assembly

end Breadboard
