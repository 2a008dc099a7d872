import Breadboard.Proofs.Assembly.Translated

/-!
**Circuits inside an assembly.**

A circuit is put into an assembly as a rigid body.  Its cells are turned about the corner of its
bounding box, which comes to stand at the place of the circuit, and connections that are drawn later
move no cell.

Main definitions:

* `Circuit.Carried` — units whose cells are moved by one motion.

Main results:

* `Circuit.carried_relocated` — a circuit that is relocated is carried;
* `Assembly.map_cells_of_link` — linking moves no cell of the units that are laid out;
* `Assembly.carried_of_link` — **every circuit of a linked assembly is carried to its place**;
* `Assembly.embedding_rigid` — **embedding is a rigid motion of the occupied cells**.
-/

set_option autoImplicit false
set_option relaxedAutoImplicit false

namespace Breadboard

namespace Circuit

/-- The cells of all units are moved by one function, after which two units have a cell in common
exactly if they had one before. -/
structure Carried (f : Point → Point) (units moved : List Element) : Prop where
  cells : moved.map Element.cells = units.map fun e => e.cells.map f
  overlaps : ∀ (i j : Nat) (e e' u u' : Element), units[i]? = some e → units[j]? = some e' →
    moved[i]? = some u → moved[j]? = some u' → (u.Overlaps u' ↔ e.Overlaps e')

/-- Units whose cells are moved by a rigid motion overlap as before. -/
theorem carried_of_cells {start place : Point} {t : Turn} {units moved : List Element}
    (h : moved.map Element.cells = units.map fun e => e.cells.map (motion start place t)) :
    Carried (motion start place t) units moved := by
  have hcells : ∀ (i : Nat) (e u : Element), units[i]? = some e → moved[i]? = some u →
      u.cells = e.cells.map (motion start place t) := by
    intro i e u he hu
    have hi := congrArg (fun l => l[i]?) h
    simp only [List.getElem?_map, he, hu, Option.map_some, Option.some.injEq] at hi
    exact hi
  refine ⟨h, ?_⟩
  intro i j e e' u u' he he' hu hu'
  exact overlaps_iff_of_cells (hcells i e u he hu) (hcells j e' u' he' hu')

/-- A circuit that is relocated is carried. -/
theorem carried_relocated (start place : Point) (t : Turn) (offset : Int) (units : List Element) :
    Carried (motion start place t) units (units.map (relocated start place t offset)) := by
  refine carried_of_cells ?_
  rw [List.map_map]
  exact List.map_congr_left fun e _ => cells_relocated start place t offset e

end Circuit

namespace Assembly

/-! ### Drawing connections -/

/-- A unit with more receivers fills the same cells. -/
theorem map_cells_of_extendWires {receivers : List Int} {units units' : List Element} {unit : Int}
    (h : extendWires receivers units unit = .ok units') :
    units'.map Element.cells = units.map Element.cells := by
  unfold extendWires at h
  split at h
  · cases h
    refine List.ext_getElem? fun i => ?_
    rw [List.getElem?_map, List.getElem?_map, List.getElem?_modify]
    cases units[i]? with
    | none => rfl
    | some e =>
        simp only [Option.map_some]
        split <;> rfl
  · cases h

/-- Drawing a link moves no cell. -/
theorem map_cells_of_draw {outputs inputs : Scope} {units units' : List Element}
    {broken broken' : List BrokenLink} {link : Link}
    (h : draw outputs inputs (units, broken) link = .ok (units', broken')) :
    units'.map Element.cells = units.map Element.cells := by
  unfold draw at h
  split at h
  · obtain ⟨proposed, _, h⟩ := Fault.bind_eq_ok_iff.1 h
    obtain ⟨drawn, hdrawn, h⟩ := Fault.bind_eq_ok_iff.1 h
    cases h
    -- the cells stay through the pairs of the link, and through the receivers of each pair
    refine Loop.foldlM_invariant (fun us => us.map Element.cells = units.map Element.cells)
      hdrawn rfl ?_
    intro pair _ us us' hus hpair
    refine Loop.foldlM_invariant (fun us => us.map Element.cells = units.map Element.cells)
      hpair hus ?_
    intro unit _ vs vs' hvs hextend
    rw [map_cells_of_extendWires hextend, hvs]
  · cases h
    rfl

/-- Linking moves no cell of the units that are laid out. -/
theorem map_cells_of_link {a : Assembly} (hnames : (Keyed.names a.schemes).Nodup) {c : Circuit}
    {d : Diagnostics} (h : a.link = .ok (c, d)) :
    ∃ places, a.positioner.arrange (Keyed.names a.schemes) = .ok places
      ∧ (∀ s ∈ a.schemes, s.2.Movable)
      ∧ c.units.map Element.cells = (laidOut a.schemes places).map Element.cells := by
  obtain ⟨places, blocks, ins, outs, ⟨units, broken⟩, hstages⟩ := link_eq_ok_iff_stages.1 h
  have hdrawn := hstages.drawn
  obtain ⟨rfl, _⟩ := layOut_eq_ok hnames hstages.laid
  refine ⟨places, hstages.arranged, movable_of_layOut hstages.laid, ?_⟩
  rw [flatMap_units_map_blockOf, ← laidOut] at hdrawn
  rw [(Circuit.build_eq_ok hstages.built).1]
  refine Loop.foldlM_invariant
    (fun drawn : List Element × List BrokenLink =>
      drawn.1.map Element.cells = (laidOut a.schemes places).map Element.cells) hdrawn rfl ?_
  intro link _ drawn drawn' hcells hdraw
  exact (map_cells_of_draw hdraw).trans hcells

/-- **Every circuit of a linked assembly is carried to its place.** -/
theorem carried_of_link {a : Assembly} (hnames : (Keyed.names a.schemes).Nodup) {c : Circuit}
    {d : Diagnostics} (h : a.link = .ok (c, d)) {name : String} {circuit : Circuit}
    (hmem : (name, circuit) ∈ a.schemes) :
    ∃ places place t, a.positioner.arrange (Keyed.names a.schemes) = .ok places
      ∧ Keyed.find? name places = some (place, t)
      ∧ Circuit.Carried (Circuit.motion circuit.corner place t) circuit.units
          ((c.units.drop (offset a.schemes name)).take circuit.units.length) := by
  obtain ⟨places, hplaces, _, hcells⟩ := map_cells_of_link hnames h
  obtain ⟨place, t, hplace⟩ :=
    find?_arrange hplaces (List.mem_map.2 ⟨(name, circuit), hmem, rfl⟩)
  have hseat : seat places name = (place, t) := by rw [seat, hplace]; rfl
  refine ⟨places, place, t, hplaces, hplace, Circuit.carried_of_cells ?_⟩
  refine List.ext_getElem? fun i => ?_
  rw [List.map_take, List.map_drop, hcells, List.getElem?_take]
  split
  · rename_i hi
    have hblock := getElem?_flatMap_offset (f := fun s => seated places (offset a.schemes s.1) s)
      (fun s _ => length_seated places _ s) hnames hmem hi
    rw [List.getElem?_drop, List.getElem?_map, laidOut, hblock, seated, hseat, List.getElem?_map,
      List.getElem?_map, Option.map_map]
    congr 1
    funext e
    exact Circuit.cells_relocated circuit.corner place t _ e
  · rename_i hi
    rw [List.getElem?_eq_none (by rw [List.length_map]; omega)]

/-- **Embedding is a rigid motion of the occupied cells.**  A modest circuit is taken apart at every
place and in every turn; its cells are then moved by the motion that turns them about the corner of
all cells and takes that corner to the place, so that units overlap as before.  Compiling carries
every circuit of an assembly in the same way, and has the same outcome if circuits were moved as a
whole before they were added. -/
theorem embedding_rigid {c : Circuit} (hne : c.units ≠ []) (hmodest : c.Modest) :
    ∃ start size, Circuit.boundingBox c.units = .ok (start, size)
      ∧ Circuit.IsCorner start c.units
      ∧ (∀ (place : Point) (t : Turn), Circuit.motion start place t start = place)
      ∧ (∀ (offset : Int) (place : Point) (t : Turn), ∃ moved rest,
          Circuit.takeApart offset place t c = .ok moved rest
            ∧ Circuit.Carried (Circuit.motion start place t) c.units moved)
      ∧ (∀ (positioner : Positioner) (config : CompileConfig) (calls : List Call) (a : Assembly),
          a = run calls (empty positioner config) →
          ∀ (name : String) (compiled : Circuit) (d : Diagnostics) (a' : Assembly),
            (name, c) ∈ a.schemes → compile a = .ok (compiled, d) a' →
            ∃ places place t, a.positioner.arrange (Keyed.names a.schemes) = .ok places
              ∧ Keyed.find? name places = some (place, t)
              ∧ Circuit.Carried (Circuit.motion start place t) c.units
                  ((compiled.units.drop (offset a.schemes name)).take c.units.length))
      ∧ (∀ (positioner : Positioner) (config : CompileConfig) (calls calls' : List Call),
          List.Forall₂ Call.Shifted calls calls' →
          Alike (compile (run calls (empty positioner config)))
            (compile (run calls' (empty positioner config)))) := by
  have hmovable := hmodest.movable
  obtain ⟨⟨start, size⟩, hbox⟩ := hmovable.box
  have hcorner : c.corner = start := Circuit.corner_eq hbox
  refine ⟨start, size, hbox, Circuit.isCorner_start hbox hne, ?_, ?_, ?_, ?_⟩
  · intro place t
    exact Circuit.motion_start start place t
  · intro offset place t
    have htaken := Circuit.takeApart_of_movable hmovable offset place t
    rw [hcorner] at htaken
    exact ⟨_, _, htaken, Circuit.carried_relocated start place t offset c.units⟩
  · intro positioner config calls a ha name compiled d a' hmem hcompile
    have hholds : a.Holds fun _ => True := by
      rw [ha]
      exact holds_run (holds_empty positioner config) fun _ _ _ _ _ _ => trivial
    obtain ⟨_, hlink, _⟩ := compile_eq_ok_iff.1 hcompile
    obtain ⟨places, place, t, hplaces, hplace, hcarried⟩ :=
      carried_of_link hholds.names hlink hmem
    rw [hcorner] at hcarried
    exact ⟨places, place, t, hplaces, hplace, hcarried⟩
  · intro positioner config calls calls' hcalls
    refine parallel_compile _ _ (shifted_run hcalls ⟨[], .nil, rfl⟩)

/-- A timer of two cells that is turned to lie along the `y` axis, and a gate in its second cell. -/
def lying : Circuit where
  units := [⟨⟨.timer 5, [1], none, false⟩, ⟨5, -1, 0⟩, .quarterX⟩,
    ⟨⟨.gate .or, [], none, false⟩, ⟨5, -2, 0⟩, .identity⟩]
  inputs := [⟨"_", "bit", .single [0], []⟩]
  outputs := [⟨"_", "bit", .single [1], []⟩]
  bounds := ⟨1, 2, 1⟩

theorem modest_lying : lying.Modest := by
  constructor <;>
    simp [lying, Point.IsModest, Part.size, Point.one]

/-- The calls that add the two units, place them and turn them once more. -/
def layLying (c : Circuit) : List Call :=
  [.add "low" (.circuit c), .placeLast ⟨10, 0, 7⟩, .rotateLast .quarterZ]

/-- The cells of the timer after it was turned once more, and the gate that still fills one of
them; they are the same if the two units were moved before. -/
theorem embedding_rigid_lying :
    lying.units ≠ [] ∧ lying.Modest
      ∧ (∃ moved rest, Circuit.takeApart 4 ⟨10, 0, 7⟩ .quarterZ lying = .ok moved rest
        ∧ moved.map Element.cells = [[⟨9, 0, 7⟩, ⟨10, 0, 7⟩], [⟨10, 0, 7⟩]])
      ∧ ∃ compiled d a' b',
        compile (run (layLying lying) (empty (.manual .empty) .standard)) = .ok (compiled, d) a'
        ∧ compile (run (layLying (lying.translate ⟨40, 2, -9⟩)) (empty (.manual .empty) .standard))
          = .ok (compiled, d) b'
        ∧ (compiled.units.take 2).map Element.cells
          = [[⟨9, 0, 7⟩, ⟨10, 0, 7⟩], [⟨10, 0, 7⟩]] := by
  have hne : lying.units ≠ [] := List.cons_ne_nil _ _
  obtain ⟨start, size, hbox, _, _, hapart, hcompiled, hmoved⟩ := embedding_rigid hne modest_lying
  obtain ⟨moved, rest, htaken, htakenCells⟩ := hapart 4 ⟨10, 0, 7⟩ .quarterZ
  cases hbox
  refine ⟨hne, modest_lying, ⟨moved, rest, htaken, htakenCells.cells⟩, ?_⟩
  obtain ⟨compiled, d, a', h⟩ : ∃ compiled d a',
      compile (run (layLying lying) (empty (.manual .empty) .standard)) = .ok (compiled, d) a' :=
    ⟨_, _, _, rfl⟩
  obtain ⟨places, place, t, hplaces, hplace, hcarried⟩ :=
    hcompiled _ _ _ _ rfl "low" compiled d a' List.mem_cons_self h
  have halike := hmoved (.manual .empty) .standard (layLying lying)
    (layLying (lying.translate ⟨40, 2, -9⟩))
    (.cons (.add "low" (.moved ⟨_, rfl⟩)) (.cons (.same _) (.cons (.same _) .nil)))
  rw [h] at halike
  cases hplaces
  cases hplace
  generalize compile (run (layLying (lying.translate ⟨40, 2, -9⟩)) _) = outcome at halike ⊢
  cases halike with
  | ok _ _ => exact ⟨compiled, d, a', _, h, rfl, hcarried.cells⟩

end Assembly

end Breadboard
