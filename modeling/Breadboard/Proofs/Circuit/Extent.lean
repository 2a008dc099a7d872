import Breadboard.Proofs.Circuit.Cells

/-!
**How far cells reach.**

A box around cells is known by how far the cells reach along each of the six headings.  A turn
exchanges the headings, a move shifts them, and the hull of two boxes reaches as far as either; so
the bounding box of a circuit reaches exactly as far as its cells, and that is all there is to know
of it.

Main definitions:

* `Heading.ahead` — how far a point lies along a heading;
* `Point.Spans` — two corners span cells: no cell reaches further, and some cell reaches as far;
* `Circuit.Tight` — two corners hold all cells that units fill, and touch some on every side.

Main results:

* `Heading.ahead_act` — a turn exchanges the headings;
* `Point.Spans.unique` — cells are spanned by one pair of corners only;
* `Point.Spans.map_act`, `Point.Spans.append` — turned cells, and the hull of two boxes;
* `Circuit.spans_of_boundingBox` — **the bounding box spans the cells of the units**;
* `Circuit.boundingBox_of_spans` — **and whatever spans them is the bounding box**;
* `Circuit.boundingBox_tight` — so it is the one box that is tight around the units.
-/

set_option autoImplicit false
set_option relaxedAutoImplicit false

namespace Breadboard

namespace Heading

/-- How far a point lies along a heading. -/
def ahead : Heading → Point → Int
  | posX, p => p.x
  | negX, p => -p.x
  | posY, p => p.y
  | negY, p => -p.y
  | posZ, p => p.z
  | negZ, p => -p.z

theorem ahead_add (h : Heading) (p q : Point) : h.ahead (p + q) = h.ahead p + h.ahead q := by
  cases h <;> simp only [ahead, Point.add_def] <;> omega

/-- **A turn exchanges the headings.** -/
theorem ahead_act (h : Heading) (t : Turn) (p : Point) :
    h.ahead (t.act p) = (t.source h).ahead p := by
  obtain ⟨x, y, z, e⟩ := t
  cases x <;> cases y <;> cases e <;> cases h <;>
    simp [ahead, Turn.act, Turn.source, along, opposite, Point.add_def]

/-- The headings along which the coordinates grow. -/
def axes : List Heading := [posX, posY, posZ]

theorem mem_axes_or_opposite (h : Heading) : h ∈ axes ∨ h.opposite ∈ axes := by
  cases h <;> decide

theorem ahead_opposite (h : Heading) (p : Point) : h.opposite.ahead p = -h.ahead p := by
  cases h <;> simp [ahead, opposite]

theorem ahead_le_ahead {h : Heading} (haxis : h ∈ axes) {p q : Point} (hle : p ≤ q) :
    h.ahead p ≤ h.ahead q := by
  obtain ⟨hx, hy, hz⟩ := hle
  simp only [axes, List.mem_cons, List.not_mem_nil, or_false] at haxis
  rcases haxis with rfl | rfl | rfl
  · exact hx
  · exact hy
  · exact hz

/-- The corners of the box between two points reach as far as the points. -/
theorem max_ahead_meet_join (h : Heading) (p q : Point) :
    max (h.ahead (p.meet q)) (h.ahead (p.join q)) = max (h.ahead p) (h.ahead q) := by
  cases h <;> simp only [ahead, Point.meet, Point.join] <;> omega

end Heading

namespace Point

/-! ### Corners that span cells -/

/-- Two corners span cells: along each heading no cell reaches further than they, and some cell
reaches as far. -/
structure Spans (start stop : Point) (cells : List Point) : Prop where
  le : start ≤ stop
  bounded : ∀ h : Heading, ∀ q ∈ cells, h.ahead q ≤ max (h.ahead start) (h.ahead stop)
  reached : ∀ h : Heading, ∃ q ∈ cells, h.ahead q = max (h.ahead start) (h.ahead stop)

/-- Whether corners span cells can be looked up, heading by heading. -/
instance decidableSpans (start stop : Point) (cells : List Point) :
    Decidable (Spans start stop cells) :=
  decidable_of_iff ((start.x ≤ stop.x ∧ start.y ≤ stop.y ∧ start.z ≤ stop.z)
    ∧ ∀ h ∈ Heading.all,
      (∀ q ∈ cells, h.ahead q ≤ max (h.ahead start) (h.ahead stop))
        ∧ ∃ q ∈ cells, h.ahead q = max (h.ahead start) (h.ahead stop))
    ⟨fun ⟨hle, hall⟩ => ⟨hle, fun h => (hall h (by cases h <;> decide)).1,
      fun h => (hall h (by cases h <;> decide)).2⟩,
     fun h => ⟨h.le, fun g _ => ⟨h.bounded g, h.reached g⟩⟩⟩

namespace Spans

variable {start stop : Point} {cells : List Point}

/-- Cells lie between the corners that span them. -/
theorem between (h : Spans start stop cells) {q : Point} (hq : q ∈ cells) :
    start ≤ q ∧ q ≤ stop := by
  obtain ⟨hx, hy, hz⟩ := h.le
  have hpos (g : Heading) := h.bounded g q hq
  have hpx := hpos .posX
  have hnx := hpos .negX
  have hpy := hpos .posY
  have hny := hpos .negY
  have hpz := hpos .posZ
  have hnz := hpos .negZ
  simp only [Heading.ahead] at hpx hnx hpy hny hpz hnz
  exact ⟨⟨by omega, by omega, by omega⟩, by omega, by omega, by omega⟩

/-- Cells are spanned by one pair of corners only. -/
theorem unique {start' stop' : Point} (h : Spans start stop cells)
    (h' : Spans start' stop' cells) : start = start' ∧ stop = stop' := by
  have heq (g : Heading) :
      max (g.ahead start) (g.ahead stop) = max (g.ahead start') (g.ahead stop') := by
    obtain ⟨q, hq, hreach⟩ := h.reached g
    obtain ⟨q', hq', hreach'⟩ := h'.reached g
    have hle := h'.bounded g q hq
    have hle' := h.bounded g q' hq'
    omega
  obtain ⟨hx, hy, hz⟩ := h.le
  obtain ⟨hx', hy', hz'⟩ := h'.le
  have hpx := heq .posX
  have hnx := heq .negX
  have hpy := heq .posY
  have hny := heq .negY
  have hpz := heq .posZ
  have hnz := heq .negZ
  simp only [Heading.ahead] at hpx hnx hpy hny hpz hnz
  constructor <;> ext <;> omega

/-- The hull of two boxes spans the cells of both. -/
theorem append {start' stop' : Point} {cells' : List Point} (h : Spans start stop cells)
    (h' : Spans start' stop' cells') :
    Spans (start.meet start') (stop.join stop') (cells ++ cells') := by
  have hle := h.le
  have hle' := h'.le
  simp only [le_def] at hle hle'
  have hmax (g : Heading) : max (g.ahead (start.meet start')) (g.ahead (stop.join stop'))
      = max (max (g.ahead start) (g.ahead stop)) (max (g.ahead start') (g.ahead stop')) := by
    cases g <;> simp only [Heading.ahead, meet, join] <;> omega
  refine ⟨?_, fun g q hq => ?_, fun g => ?_⟩
  · simp only [le_def, meet, join]
    omega
  · rw [hmax]
    rcases List.mem_append.1 hq with hq | hq
    · exact Int.le_trans (h.bounded g q hq) (Int.le_max_left _ _)
    · exact Int.le_trans (h'.bounded g q hq) (Int.le_max_right _ _)
  · rw [hmax]
    obtain ⟨q, hq, hreach⟩ := h.reached g
    obtain ⟨q', hq', hreach'⟩ := h'.reached g
    rw [← hreach, ← hreach']
    rcases Int.le_total (g.ahead q) (g.ahead q') with hqq | hqq
    · exact ⟨q', List.mem_append_right _ hq', (Int.max_eq_right hqq).symm⟩
    · exact ⟨q, List.mem_append_left _ hq, (Int.max_eq_left hqq).symm⟩

/-- Turned cells are spanned by the turned corners. -/
theorem map_act (h : Spans start stop cells) (t : Turn) :
    Spans ((t.act start).meet (t.act stop)) ((t.act start).join (t.act stop))
      (cells.map t.act) := by
  refine ⟨?_, fun g q hq => ?_, fun g => ?_⟩
  · simp only [le_def, meet, join]
    omega
  · obtain ⟨p, hp, rfl⟩ := List.mem_map.1 hq
    rw [Heading.max_ahead_meet_join, g.ahead_act, g.ahead_act, g.ahead_act]
    exact h.bounded _ p hp
  · obtain ⟨p, hp, hreach⟩ := h.reached (t.source g)
    refine ⟨t.act p, List.mem_map_of_mem hp, ?_⟩
    rw [Heading.max_ahead_meet_join, g.ahead_act, g.ahead_act, g.ahead_act]
    exact hreach

/-- Moved cells are spanned by the moved corners. -/
theorem map_add (h : Spans start stop cells) (v : Point) :
    Spans (v + start) (v + stop) (cells.map fun q => v + q) := by
  have hmax (g : Heading) : max (g.ahead (v + start)) (g.ahead (v + stop))
      = g.ahead v + max (g.ahead start) (g.ahead stop) := by
    rw [g.ahead_add, g.ahead_add]
    omega
  refine ⟨?_, fun g q hq => ?_, fun g => ?_⟩
  · have hle := h.le
    simp only [le_def, add_x, add_y, add_z] at hle ⊢
    omega
  · obtain ⟨p, hp, rfl⟩ := List.mem_map.1 hq
    have hbound := h.bounded g p hp
    rw [hmax, g.ahead_add]
    omega
  · obtain ⟨p, hp, hreach⟩ := h.reached g
    exact ⟨v + p, List.mem_map_of_mem hp, by rw [hmax, g.ahead_add, hreach]⟩

end Spans

/-- A box that is not empty is spanned by its first and its last cell. -/
theorem spans_box {size : Point} (h : one ≤ size) : Spans origin (size - one) size.box := by
  obtain ⟨hx, hy, hz⟩ := h
  simp only [one] at hx hy hz
  have hlast : size - one ∈ size.box := by
    rw [mem_box, isInside_iff]
    simp only [one, sub_x, sub_y, sub_z]
    omega
  have hfirst : origin ∈ size.box := by
    rw [mem_box, isInside_iff]
    simp only [origin]
    omega
  refine ⟨?_, fun g q hq => ?_, fun g => ?_⟩
  · simp only [le_def, origin, one, sub_x, sub_y, sub_z]
    omega
  · have hin := isInside_iff.1 (mem_box.1 hq)
    cases g <;> simp only [Heading.ahead, origin, one, sub_x, sub_y, sub_z] <;> omega
  · have hreach : ∃ q ∈ [origin, size - one],
        g.ahead q = max (g.ahead origin) (g.ahead (size - one)) := by
      rcases Int.le_total (g.ahead origin) (g.ahead (size - one)) with hle | hle
      · exact ⟨size - one, by simp, (Int.max_eq_right hle).symm⟩
      · exact ⟨origin, by simp, (Int.max_eq_left hle).symm⟩
    obtain ⟨q, hq, hreach⟩ := hreach
    rcases List.mem_pair.1 hq with rfl | rfl
    · exact ⟨_, hfirst, hreach⟩
    · exact ⟨_, hlast, hreach⟩

end Point

/-! ### The bounding box -/

/-- The corners of a unit span its cells. -/
theorem Element.spans_corners {e : Element} {k : Point × Point} (h : e.corners = .ok k) :
    Point.Spans k.1 k.2 e.cells := by
  have hbox := ((Point.spans_box e.part.one_le_size).map_act e.turn).map_add e.pos
  have hcells : (e.part.size.box.map e.turn.act).map (fun q => e.pos + q) = e.cells := by
    rw [List.map_map]
    rfl
  rw [hcells, Turn.act_origin] at hbox
  have hmeet : e.pos + Point.origin.meet (e.turn.act (e.part.size - .one))
      = e.pos.meet (e.pos + e.turn.act (e.part.size - .one)) := by
    ext <;> simp only [Point.meet, Point.origin, Point.add_x, Point.add_y, Point.add_z] <;> omega
  have hjoin : e.pos + Point.origin.join (e.turn.act (e.part.size - .one))
      = e.pos.join (e.pos + e.turn.act (e.part.size - .one)) := by
    ext <;> simp only [Point.join, Point.origin, Point.add_x, Point.add_y, Point.add_z] <;> omega
  rw [hmeet, hjoin] at hbox
  rw [corners_eq h]
  exact hbox

/-- A unit of a single cell fills its place. -/
theorem Element.cells_of_size_one {e : Element} (h : e.part.size = .one) : e.cells = [e.pos] := by
  have hbox : e.part.size.box = [.origin] := by rw [h]; rfl
  rw [cells, hbox, List.map_singleton, Turn.act_origin]
  simp [Point.add_def, Point.origin]

namespace Circuit

variable {units : List Element} {start stop size : Point}

/-- The cells of units. -/
def cellsOf (units : List Element) : List Point := units.flatMap Element.cells

/-- A box that grows around units spans the cells that it spanned before, and theirs. -/
theorem spans_grow {cells : List Point} {first last : Point × Point}
    (h : units.foldlM (fun box u => do pure (hull box (← u.corners))) first
      = Except.ok (ε := Fault) last)
    (hfirst : Point.Spans first.1 first.2 cells) :
    Point.Spans last.1 last.2 (cells ++ cellsOf units) := by
  induction units generalizing first cells with
  | nil =>
      cases h
      rw [cellsOf, List.flatMap_nil, List.append_nil]
      exact hfirst
  | cons e rest ih =>
      rw [List.foldlM_cons] at h
      obtain ⟨box, hbox, h⟩ := Fault.bind_eq_ok_iff.1 h
      obtain ⟨k, hk, hbox⟩ := Fault.bind_eq_ok_iff.1 hbox
      cases hbox
      rw [cellsOf, List.flatMap_cons, ← List.append_assoc]
      exact ih h (hfirst.append (Element.spans_corners hk))

/-- **The bounding box spans the cells of the units.** -/
theorem spans_of_boundingBox (h : boundingBox units = .ok (start, size)) (hne : units ≠ []) :
    Point.Spans start (start + size - .one) (cellsOf units) := by
  cases units with
  | nil => exact absurd rfl hne
  | cons u rest =>
      obtain ⟨first, hfirst, h⟩ := Fault.bind_eq_ok_iff.1 h
      obtain ⟨last, hlast, h⟩ := Fault.bind_eq_ok_iff.1 h
      cases h
      have hstop : last.1 + (last.2 - last.1 + .one) - .one = last.2 := by
        ext <;> simp only [Point.add_x, Point.add_y, Point.add_z, Point.sub_x, Point.sub_y,
          Point.sub_z] <;> omega
      rw [hstop, cellsOf, List.flatMap_cons]
      exact spans_grow hlast (Element.spans_corners hfirst)

/-- **Whatever spans the cells of the units is the bounding box**, if there is one. -/
theorem boundingBox_of_spans (hbox : ∃ box, boundingBox units = .ok box) (hne : units ≠ [])
    (h : Point.Spans start stop (cellsOf units)) :
    boundingBox units = .ok (start, stop - start + .one) := by
  obtain ⟨⟨start', size'⟩, hbox⟩ := hbox
  obtain ⟨hstart, hstop⟩ := h.unique (spans_of_boundingBox hbox hne)
  have hsize : stop - start + .one = size' := by
    rw [hstop, hstart]
    ext <;> simp only [Point.add_x, Point.add_y, Point.add_z, Point.sub_x, Point.sub_y,
      Point.sub_z] <;> omega
  rw [hbox, hsize, hstart]

/-! ### Tight boxes -/

/-- A unit fills the point: it is a cell of the unit's box, turned and moved to its place. -/
def Filled (units : List Element) (q : Point) : Prop :=
  ∃ e ∈ units, ∃ k : Point, k.isInside e.part.size = true ∧ e.pos + e.turn.act k = q

theorem mem_cellsOf {q : Point} : q ∈ cellsOf units ↔ Filled units q := by
  simp only [cellsOf, Filled, List.mem_flatMap, Element.cells, List.mem_map, Point.mem_box]

/-- Two corners are tight around units: no filled cell lies outside of them, and on each axis some
filled cell lies in the layer of the one and some in the layer of the other. -/
structure Tight (units : List Element) (start stop : Point) : Prop where
  holds : ∀ q, Filled units q → start ≤ q ∧ q ≤ stop
  first : ∀ axis ∈ Heading.axes, ∃ q, Filled units q ∧ axis.ahead q = axis.ahead start
  last : ∀ axis ∈ Heading.axes, ∃ q, Filled units q ∧ axis.ahead q = axis.ahead stop

/-- **Corners are tight exactly if they span the cells of the units.** -/
theorem tight_iff_spans : Tight units start stop ↔ Point.Spans start stop (cellsOf units) := by
  constructor
  · intro h
    have hle : start ≤ stop := by
      obtain ⟨q, hq, _⟩ := h.first .posX (by decide)
      exact Point.le_trans (h.holds q hq).1 (h.holds q hq).2
    refine ⟨hle, fun g q hq => ?_, fun g => ?_⟩
    · obtain ⟨hstart, hstop⟩ := h.holds q (mem_cellsOf.1 hq)
      rcases g.mem_axes_or_opposite with haxis | haxis
      · exact Int.le_trans (Heading.ahead_le_ahead haxis hstop) (Int.le_max_right _ _)
      · have hback := Heading.ahead_le_ahead haxis hstart
        rw [g.ahead_opposite, g.ahead_opposite] at hback
        omega
    · rcases g.mem_axes_or_opposite with haxis | haxis
      · obtain ⟨q, hq, hreach⟩ := h.last g haxis
        exact ⟨q, mem_cellsOf.2 hq,
          hreach.trans (Int.max_eq_right (Heading.ahead_le_ahead haxis hle)).symm⟩
      · obtain ⟨q, hq, hreach⟩ := h.first g.opposite haxis
        have hback := Heading.ahead_le_ahead haxis hle
        rw [g.ahead_opposite, g.ahead_opposite] at hreach hback
        exact ⟨q, mem_cellsOf.2 hq, by omega⟩
  · intro h
    refine ⟨fun q hq => h.between (mem_cellsOf.2 hq), fun axis haxis => ?_, fun axis haxis => ?_⟩
    · obtain ⟨q, hq, hreach⟩ := h.reached axis.opposite
      have hle := Heading.ahead_le_ahead haxis h.le
      rw [axis.ahead_opposite, axis.ahead_opposite, axis.ahead_opposite] at hreach
      exact ⟨q, mem_cellsOf.1 hq, by omega⟩
    · obtain ⟨q, hq, hreach⟩ := h.reached axis
      exact ⟨q, mem_cellsOf.1 hq,
        hreach.trans (Int.max_eq_right (Heading.ahead_le_ahead haxis h.le))⟩

/-- **The bounding box is tight**: units whose extents reach no further than a word have one, it
is tight around the cells that they fill, and no other box is. -/
theorem boundingBox_tight (hne : units ≠ [])
    (hsize : ∀ e ∈ units, Element.Reachable e.part.size) :
    ∃ start size, boundingBox units = .ok (start, size)
      ∧ Tight units start (start + size - .one)
      ∧ ∀ start' size', Tight units start' (start' + size' - .one)
          → start' = start ∧ size' = size := by
  obtain ⟨⟨start, size⟩, hbox⟩ :=
    boundingBox_isOk_iff.2 fun e he => Element.corners_isOk (hsize e he)
  have hspans := spans_of_boundingBox hbox hne
  refine ⟨start, size, hbox, tight_iff_spans.2 hspans, fun start' size' htight => ?_⟩
  obtain ⟨hstart, hstop⟩ := (tight_iff_spans.1 htight).unique hspans
  subst hstart
  refine ⟨rfl, ?_⟩
  simp only [Point.ext_iff, Point.add_x, Point.add_y, Point.add_z, Point.sub_x, Point.sub_y,
    Point.sub_z] at hstop
  ext <;> omega

/-- A timer, a block and a gate that is fed by the timer, each turned its own way. -/
def yard : List Element :=
  [⟨⟨.timer 3, [2], none, false⟩, ⟨-2, 0, 5⟩, .quarterX⟩,
   ⟨.ofPart (.block ⟨"GLASS", "5f41af56-df4c-4837-9b3c-10781335757f", "e4f8ff"⟩ ⟨2, 4, 1⟩ rfl),
     ⟨1, 1, 1⟩, .quarterZ⟩,
   ⟨⟨.gate .or, [], some "ffffff", true⟩, ⟨4, -1, 2⟩, .quarterY⟩]

theorem boundingBox_tight_yard :
    yard ≠ [] ∧ (∀ e ∈ yard, Element.Reachable e.part.size)
      ∧ boundingBox yard = .ok (⟨-2, -1, 1⟩, ⟨7, 4, 5⟩)
      ∧ Tight yard ⟨-2, -1, 1⟩ ⟨4, 2, 5⟩ := by
  have hne : yard ≠ [] := by decide
  have hsize : ∀ e ∈ yard, Element.Reachable e.part.size := by
    simp [yard, Element.Reachable, Device.ofPart, Part.size, Point.one]
  have hvalue : boundingBox yard = .ok (⟨-2, -1, 1⟩, ⟨7, 4, 5⟩) := rfl
  obtain ⟨start, size, hbox, htight, _⟩ := boundingBox_tight hne hsize
  rw [hvalue] at hbox
  cases hbox
  exact ⟨hne, hsize, hvalue, htight⟩

end Circuit

end Breadboard
