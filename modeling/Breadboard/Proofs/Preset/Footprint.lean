import Breadboard.Proofs.Assembly.Floorplan
import Breadboard.Proofs.Preset.Adder
import Breadboard.Proofs.Preset.CompactAdder
import Breadboard.Proofs.Preset.Inverter

/-!
**The circuits for words can be built in the game.**

The gates of the circuits for words stand in columns along the `y` axis, with one cell for each bit.
No two columns have the same foot, so no cell is filled twice, and the box of all cells is that of
the feet, as long as the word.  No gate has more than three receivers, so no check of their number
fails that allows as many.

Main definitions:

* `Arithmetic.sectionFeet`, `Arithmetic.compactFeet`, `Arithmetic.inverterFeet` — the feet of the
  columns.

Main results:

* `Arithmetic.IsGateRow.cells_laid` — a row that is laid along the `y` axis is a column;
* `Arithmetic.perm_cells_sections`, `Arithmetic.CompactRows.cells_eq`,
  `Arithmetic.InverterParts.Made.cells_eq` — the cells of the three designs;
* `Arithmetic.words_solid` — **no two gates have a cell in common, the sizes are as wide as the
  words, and no gate sends to more than three others, for every width**.
-/

set_option autoImplicit false
set_option relaxedAutoImplicit false

namespace Breadboard

namespace Arithmetic

/-! ### Rows that are laid along the `y` axis -/

theorem act_laid (x : Int) : laid.act ⟨x, 0, 0⟩ = ⟨0, x, 0⟩ := by
  have hlaid : laid = .quarterZ := by decide
  simp [hlaid, Turn.act, Turn.quarterZ, Heading.along, Point.add_def]

namespace IsGateRow

variable {c : Circuit} {n : Nat} {mode : GateMode} {turn : Turn}

theorem cellsOf_units (h : IsGateRow c n mode turn) :
    Circuit.cellsOf c.units = (List.range n).map fun (x : Nat) => (⟨x, 0, 0⟩ : Point) := by
  rw [h.units, Circuit.cellsOf, List.flatMap_map, List.map_eq_flatMap]
  exact List.flatMap_congr fun x _ => Element.cells_of_size_one rfl

/-- A row that is laid along the `y` axis is a column. -/
theorem cells_laid (h : IsGateRow c n mode turn) (hn : 1 ≤ n) (name : String) (place : Point) :
    Placed.cells ⟨name, c, place, laid⟩ = Point.column n place := by
  obtain ⟨size, hbox⟩ := h.exists_boundingBox hn
  rw [Placed.cells, h.cellsOf_units, Circuit.corner_eq hbox, List.map_map]
  refine List.map_congr_left fun x _ => ?_
  have hstart : (⟨x, 0, 0⟩ : Point) - .origin = ⟨x, 0, 0⟩ := by
    simp [Point.sub_def, Point.origin]
  rw [Function.comp_apply, Circuit.motion, hstart, act_laid]

end IsGateRow

/-- A single gate fills its place. -/
theorem cells_gate {c : Circuit} {mode : GateMode} (h : gate mode = .ok c) (name : String)
    (place : Point) : Placed.cells ⟨name, c, place, .identity⟩ = [place] := by
  have hunits : c.units = [⟨.ofPart (.gate mode), .origin, .identity⟩] :=
    (Circuit.build_eq_ok h).1
  have hcells : Circuit.cellsOf c.units = [.origin] := by
    rw [hunits]
    exact congrArg (· ++ []) (Element.cells_of_size_one rfl)
  have hbox : Circuit.boundingBox c.units = .ok (.origin, .one) := by
    rw [hunits]
    cases mode <;> rfl
  rw [Placed.cells, hcells, Circuit.corner_eq hbox, List.map_singleton, Circuit.motion_start]

/-! ### The cells of the designs -/

/-- The feet of the rows of the compact adder. -/
def compactFeet : List Point := [⟨1, 0, 1⟩, ⟨0, 0, 0⟩, ⟨0, 0, 1⟩, ⟨1, 0, 0⟩, ⟨2, 0, 0⟩]

/-- The cells of the compact adder stand in five columns. -/
theorem CompactRows.cells_eq {n : Nat} (rows : CompactRows n) (hn : 1 ≤ n) :
    rows.placed.flatMap Placed.cells
      = compactFeet.flatMap (Point.column n) := by
  simp only [CompactRows.placed, compactFeet, List.flatMap_cons, List.flatMap_nil,
    rows.isCarry.cells_laid hn, rows.isAnd.cells_laid hn, rows.isRes.cells_laid hn]

/-- The places of the two single gates of the inverter. -/
def inverterStart : List Point := [⟨2, -1, 0⟩, ⟨1, -1, 0⟩]

/-- The feet of the rows of the inverter. -/
def inverterFeet : List Point := [⟨0, 0, 0⟩, ⟨1, 0, 0⟩, ⟨2, 0, 0⟩, ⟨3, 0, 0⟩]

/-- The cells of the inverter stand in four columns, with two single gates before them. -/
theorem InverterParts.Made.cells_eq {n : Nat} {parts : InverterParts n} (h : parts.Made)
    (hn : 1 ≤ n) :
    parts.placed.flatMap Placed.cells
      = inverterStart ++ inverterFeet.flatMap (Point.column n) := by
  simp only [InverterParts.placed, inverterFeet, List.flatMap_cons, List.flatMap_nil,
    cells_gate h.one, cells_gate h.never, (isGateRow_of_row h.or).cells_laid hn,
    (isGateRow_of_row h.nor).cells_laid hn, (isGateRow_of_row h.carry).cells_laid hn,
    (isGateRow_of_row h.out).cells_laid hn]
  rfl

/-- The feet of the chain of full adders, which are the cells of a full adder for one bit. -/
def sectionFeet : List Point :=
  [⟨0, 0, 0⟩, ⟨0, 0, 1⟩, ⟨2, 0, 1⟩, ⟨1, 0, 0⟩, ⟨1, 0, 1⟩, ⟨2, 0, 0⟩, ⟨3, 0, 0⟩]

theorem cells_section {part : Circuit} (h : adderSection .standard = .ok (part, [])) :
    Circuit.cellsOf part.units = sectionFeet ∧ part.corner = .origin := by
  cases h
  exact ⟨rfl, rfl⟩

/-- The cells of the chain of full adders stand in seven columns. -/
theorem perm_cells_sections {part : Circuit} (h : adderSection .standard = .ok (part, []))
    (n : Nat) :
    ((sections part n).flatMap Placed.cells).Perm (sectionFeet.flatMap (Point.column n)) := by
  obtain ⟨hcells, hcorner⟩ := cells_section h
  refine List.Perm.trans (.of_eq ?_) (Point.perm_columns sectionFeet n)
  rw [sections, List.flatMap_map]
  refine List.flatMap_congr fun k _ => ?_
  rw [Placed.cells, hcells, hcorner]
  refine List.map_congr_left fun foot _ => ?_
  rw [Circuit.motion, Turn.act_identity]
  ext <;> simp only [Point.add_x, Point.add_y, Point.add_z, Point.sub_x, Point.sub_y, Point.sub_z,
    Point.origin] <;> omega

/-! ### The presets -/

/-- Whatever is checked, the section is one circuit. -/
theorem makes_adderSection {part : Circuit} (h : adderSection .standard = .ok (part, []))
    (hwires : ∀ e ∈ part.units, e.wires.length ≤ 3) : Recipe.Makes adderSection part 3 := by
  obtain ⟨or, hor, h⟩ := Fault.bind_eq_ok_iff.1 h
  obtain ⟨and, hand, h⟩ := Fault.bind_eq_ok_iff.1 h
  obtain ⟨xor, hxor, h⟩ := Fault.bind_eq_ok_iff.1 h
  have hmakes := Assembly.makes_linkFor h hwires
  have hsection : adderSection = _ := funext fun config => by
    simp only [adderSection, hor, hand, hxor, bind, Except.bind]
    rfl
  exact hsection ▸ hmakes

section Presets

variable {n : Nat}

/-- The preset passes on the width. -/
theorem make_adder (hn : 1 ≤ n) (config : CompileConfig) :
    Preset.adder.make [("word_size", .int n)] config = adder config n := by
  show (Preset.checkWordSize (.int n) >>= _) = _
  rw [Preset.checkWordSize_eq_ok hn]
  rfl

theorem exists_solid_adder (hn : 1 ≤ n) :
    ∃ c, c.Solid ⟨4, n, 2⟩ 3
      ∧ Recipe.Makes (Preset.adder.make [("word_size", .int n)]) c 3 := by
  obtain ⟨part, hmade, h⟩ := exists_section
  obtain ⟨first, second, sum, hfits, _⟩ := exists_fits_adder h n
  have hperm := perm_cells_sections hmade n
  have hspans : Point.Spans .origin ⟨3, 0, 1⟩ sectionFeet := by decide
  have hfeet : sectionFeet.Nodup := by decide
  have hlevel : ∀ p ∈ sectionFeet, p.y = 0 := by decide
  obtain ⟨c, hsolid, hmakes⟩ := hfits.exists_solid ((hspans.columns hn).perm hperm)
    (hperm.nodup_iff.2 (Point.nodup_columns hfeet hlevel n)) (length_wires_sections h n) "adder"
  have hsize : (⟨3, 0, 1⟩ : Point) + ⟨0, n - 1, 0⟩ - .origin + .one = ⟨4, n, 2⟩ := by
    simp [Point.add_def, Point.sub_def, Point.origin, Point.one]
  rw [hsize] at hsolid
  refine ⟨c, hsolid, ?_⟩
  rw [funext (make_adder hn)]
  exact (makes_adderSection hmade h.wires).bind hmakes

theorem exists_solid_adderCompact (hn : 1 ≤ n) (hword : n < 2 ^ 60) :
    ∃ c, c.Solid ⟨3, n, 2⟩ 3
      ∧ Recipe.Makes (Preset.adderCompact.make [("word_size", .int n)]) c 3 := by
  obtain ⟨rows, hmade⟩ := exists_rows hword
  obtain ⟨_, _, _, _, _, hfits, _⟩ := rows.exists_fits hn hword
  have hcells := rows.cells_eq hn
  have hspans : Point.Spans .origin ⟨2, 0, 1⟩ compactFeet := by decide
  have hfeet : compactFeet.Nodup := by decide
  have hlevel : ∀ p ∈ compactFeet, p.y = 0 := by decide
  obtain ⟨c, hsolid, hmakes⟩ := hfits.exists_solid (hcells ▸ hspans.columns hn)
    (hcells ▸ Point.nodup_columns hfeet hlevel n) rows.length_wires_le "adder_compact"
  have hsize : (⟨2, 0, 1⟩ : Point) + ⟨0, n - 1, 0⟩ - .origin + .one = ⟨3, n, 2⟩ := by
    simp [Point.add_def, Point.sub_def, Point.origin, Point.one]
  rw [hsize] at hsolid
  refine ⟨c, hsolid, ?_⟩
  rw [funext fun config => (make_adderCompact hn config).trans (hmade config _)]
  exact hmakes

theorem exists_solid_inverter (hn : 1 ≤ n) (hword : n < 2 ^ 60) :
    ∃ c, c.Solid ⟨4, n + 1, 1⟩ 3
      ∧ Recipe.Makes (Preset.inverter.make [("word_size", .int n)]) c 3 := by
  obtain ⟨parts, hparts, hmade, hembeddable⟩ := exists_parts hword
  obtain ⟨_, _, hfits, _⟩ := parts.exists_fits hn hembeddable
  have hcells := hparts.cells_eq hn
  have hspansStart : Point.Spans ⟨1, -1, 0⟩ ⟨2, -1, 0⟩ inverterStart := by decide
  have hspansFeet : Point.Spans .origin ⟨3, 0, 0⟩ inverterFeet := by decide
  have hfeet : inverterFeet.Nodup := by decide
  have hlevel : ∀ p ∈ inverterFeet, p.y = 0 := by decide
  have hbefore : ∀ p ∈ inverterStart, p.y = -1 := by decide
  -- the single gates stand before the first places of the rows
  have hnodup : (inverterStart ++ inverterFeet.flatMap (Point.column n)).Nodup := by
    refine List.nodup_append.2 ⟨by decide, Point.nodup_columns hfeet hlevel n, ?_⟩
    rintro p hp q hq rfl
    obtain ⟨foot, hfoot, hq⟩ := List.mem_flatMap.1 hq
    obtain ⟨k, _, rfl⟩ := Point.mem_column.1 hq
    have hy := hbefore _ hp
    have hzero := hlevel foot hfoot
    simp only [Point.add_y] at hy
    omega
  obtain ⟨c, hsolid, hmakes⟩ := hfits.exists_solid
    (hcells ▸ hspansStart.append (hspansFeet.columns hn)) (hcells ▸ hnodup)
    parts.length_wires_le "inverter"
  have hsize : Point.join ⟨2, -1, 0⟩ (⟨3, 0, 0⟩ + ⟨0, n - 1, 0⟩)
      - Point.meet ⟨1, -1, 0⟩ .origin + .one = ⟨4, n + 1, 1⟩ := by
    ext <;> simp only [Point.join, Point.meet, Point.origin, Point.one, Point.add_x, Point.add_y,
      Point.add_z, Point.sub_x, Point.sub_y, Point.sub_z] <;> omega
  rw [hsize] at hsolid
  refine ⟨c, hsolid, ?_⟩
  rw [funext fun config => (make_inverter hn config).trans (hmade config)]
  exact hmakes

end Presets

/-- **The circuits for words can be built in the game, for every width.**  No two units have a cell
in common, the bounding boxes are as wide as the words are, and no unit sends to more than three
others, so the circuits pass every check that allows as many.  Whatever is checked, no other
circuits are made.  The circuits that are made of rows fail if there can be no array over a row. -/
theorem words_solid (n : Nat) (hn : 1 ≤ n) :
    (∃ c, c.Solid ⟨4, n, 2⟩ 3
        ∧ Recipe.Makes (Preset.adder.make [("word_size", .int n)]) c 3)
      ∧ (n < 2 ^ 60 →
        (∃ c, c.Solid ⟨3, n, 2⟩ 3
          ∧ Recipe.Makes (Preset.adderCompact.make [("word_size", .int n)]) c 3)
        ∧ ∃ c, c.Solid ⟨4, n + 1, 1⟩ 3
          ∧ Recipe.Makes (Preset.inverter.make [("word_size", .int n)]) c 3)
      ∧ (2 ^ 60 ≤ n → ∀ config,
        Preset.adderCompact.make [("word_size", .int n)] config = .error (SlotPlan.rowFault n)
          ∧ Preset.inverter.make [("word_size", .int n)] config
            = .error (SlotPlan.rowFault n)) := by
  refine ⟨exists_solid_adder hn,
    fun hword => ⟨exists_solid_adderCompact hn hword, exists_solid_inverter hn hword⟩,
    fun hword config => ⟨?_, ?_⟩⟩
  · rw [make_adderCompact hn config]
    exact adderCompact_eq_error hword config _
  · rw [make_inverter hn config]
    exact inverter_eq_error hword config

/-- The circuits for words of four bits under the tightest checks that they pass, and rows that are
too long. -/
theorem words_solid_nibbles :
    (∃ c, c.Solid ⟨4, 4, 2⟩ 3
        ∧ Preset.adder.make [("word_size", .int 4)] ⟨3, true⟩ = .ok (c, []))
      ∧ (∃ c, c.Solid ⟨3, 4, 2⟩ 3
        ∧ Preset.adderCompact.make [("word_size", .int 4)] ⟨3, true⟩ = .ok (c, []))
      ∧ (∃ c, c.Solid ⟨4, 5, 1⟩ 3
        ∧ Preset.inverter.make [("word_size", .int 4)] ⟨3, true⟩ = .ok (c, []))
      ∧ Preset.inverter.make [("word_size", .int (2 ^ 60 : Nat))] ⟨3, true⟩
        = .error .boxTooLarge := by
  have hallows : CompileConfig.Allows ⟨3, true⟩ 3 := fun _ => Int.le_refl 3
  obtain ⟨⟨c, hsolid, hmakes⟩, hrows, _⟩ := words_solid 4 (by decide)
  obtain ⟨⟨c', hsolid', hmakes'⟩, c'', hsolid'', hmakes''⟩ := hrows (by decide)
  have hfar := (words_solid (2 ^ 60) (by decide)).2.2 (by decide) ⟨3, true⟩
  have hfault : SlotPlan.rowFault (2 ^ 60) = .boxTooLarge := if_pos (by decide)
  exact ⟨⟨c, hsolid, hmakes.made _ hallows⟩, ⟨c', hsolid', hmakes'.made _ hallows⟩,
    ⟨c'', hsolid'', hmakes''.made _ hallows⟩, hfault ▸ hfar.2⟩

end Arithmetic

end Breadboard
