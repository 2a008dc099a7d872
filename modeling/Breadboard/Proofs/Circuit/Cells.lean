import Breadboard.Proofs.Circuit.BoundingBox
import Mathlib.Algebra.Group.Int.Defs

/-!
**The cells that units fill.**

A unit fills the cells of its box, turned about the first of them and moved to its place.  When a
circuit is relocated, every cell of every unit is moved by the same rigid motion, which takes the
first corner of the bounding box to the new place; so two units have a cell in common exactly if
they had one before.  Where the circuit stood at first makes no difference.

Main definitions:

* `Element.cells`, `Element.Overlaps` — the cells of a unit, and units that have a cell in common;
* `Circuit.IsCorner` — the corner of all cells;
* `Circuit.motion` — the motion by which a circuit is relocated;
* `Circuit.Modest` — circuits whose coordinates and sizes are far from the ends of a word;
* `Circuit.translate` — a circuit moved as a whole.

Main results:

* `Circuit.isCorner_start` — the bounding box begins at the corner of all cells;
* `Circuit.cells_relocated` — **relocating a unit moves its cells**;
* `Circuit.Modest.movable`, `Circuit.takeApart_of_movable` — modest circuits can be relocated;
* `Circuit.relocate_translate` — **a circuit that was moved before is relocated to the same units**.
-/

set_option autoImplicit false
set_option relaxedAutoImplicit false

namespace Breadboard

/-! ### Cells -/

namespace Element

/-- The cells that a unit fills, in the order of the cells of its box. -/
def cells (e : Element) : List Point := e.part.size.box.map fun k => e.pos + e.turn.act k

/-- Two units have a cell in common. -/
def Overlaps (e f : Element) : Prop := ∃ q ∈ e.cells, q ∈ f.cells

/-- The far corner of a unit, which is turned exactly. -/
theorem corners_eq {e : Element} {k : Point × Point} (h : e.corners = .ok k) :
    k = (e.pos.meet (e.pos + e.turn.act (e.part.size - .one)),
      e.pos.join (e.pos + e.turn.act (e.part.size - .one))) := by
  obtain ⟨hx, hy, hz⟩ := e.part.one_le_size
  have hlast : e.part.size.map (fun v => max (v - 1) 0) = e.part.size - .one := by
    simp only [Point.map, Point.sub_def, Point.one, Point.mk.injEq]
    omega
  have hfit := corners_isOk_iff.1 ⟨k, h⟩
  rw [hlast] at hfit
  have hcount : Point.origin ≤ e.part.size - .one := by
    simp only [Point.le_def, Point.origin, Point.one, Point.sub_x, Point.sub_y, Point.sub_z]
    omega
  obtain ⟨far, hfar, h⟩ := Fault.bind_eq_ok_iff.1 h
  rw [hlast, Reading.moved_of_fits e.turn hcount hfit] at hfar
  cases hfar
  cases h
  rfl

/-- The box of a unit begins at or before each of its cells. -/
theorem fst_corners_le_cells {e : Element} {k : Point × Point} (h : e.corners = .ok k) {q : Point}
    (hq : q ∈ e.cells) : k.1 ≤ q := by
  obtain ⟨cell, hcell, rfl⟩ := List.mem_map.1 hq
  obtain ⟨hx, hy, hz⟩ := Point.isInside_iff.1 (Point.mem_box.1 hcell)
  rw [corners_eq h]
  -- a turn sends each axis along an axis, so each coordinate is bounded by one of the two corners
  obtain ⟨x, y, z, handed⟩ := e.turn
  simp only [Point.le_def, Point.meet, Point.add_def, Point.sub_def, Point.one, Turn.act]
  cases x <;> cases y <;> cases handed <;> (simp only [Heading.along]; omega)

/-- What lies before all cells of a unit lies before its box. -/
theorem le_fst_corners_of_cells {e : Element} {k : Point × Point} (h : e.corners = .ok k)
    {q : Point} (hq : ∀ cell ∈ e.cells, q ≤ cell) : q ≤ k.1 := by
  obtain ⟨hx, hy, hz⟩ := e.part.one_le_size
  -- the two corners are cells themselves
  have hcell : ∀ p : Point, p.isInside e.part.size = true → q ≤ e.pos + e.turn.act p := by
    intro p hp
    exact hq _ (List.mem_map_of_mem (Point.mem_box.2 hp))
  have hnear := hcell .origin (Point.isInside_iff.2 (by simp only [Point.origin]; omega))
  have hfar := hcell (e.part.size - .one) (Point.isInside_iff.2 (by
    simp only [Point.one, Point.sub_x, Point.sub_y, Point.sub_z]
    omega))
  rw [Turn.act_origin] at hnear
  rw [corners_eq h]
  refine Point.le_meet ?_ hfar
  simpa [Point.add_def, Point.origin] using hnear

end Element

namespace Circuit

/-- The greatest point that lies before all cells. -/
structure IsCorner (start : Point) (units : List Element) : Prop where
  le_cells : ∀ e ∈ units, ∀ q ∈ e.cells, start ≤ q
  greatest : ∀ q : Point, (∀ e ∈ units, ∀ cell ∈ e.cells, q ≤ cell) → q ≤ start

/-- The bounding box of units begins at the corner of their cells. -/
theorem isCorner_start {units : List Element} {box : Point × Point}
    (h : boundingBox units = .ok box) (hne : units ≠ []) : IsCorner box.1 units where
  le_cells e he q hq := by
    obtain ⟨k, hk, hle⟩ := start_le_corners h he
    exact Point.le_trans hle (Element.fst_corners_le_cells hk hq)
  greatest q hq := le_start h hne fun e he k hk => Element.le_fst_corners_of_cells hk (hq e he)

end Circuit

/-! ### Rigid motions -/

theorem Turn.act_injective (t : Turn) {p q : Point} (h : t.act p = t.act q) : p = q := by
  rw [← act_inverse t p, h, act_inverse]

namespace Circuit

/-- The motion that takes `start` to `place` and turns everything about it. -/
def motion (start place : Point) (t : Turn) (q : Point) : Point := place + t.act (q - start)

section Motion

variable (start place : Point) (t : Turn)

/-- The motion takes `start` to `place`. -/
theorem motion_start : motion start place t start = place := by
  have hzero : start - start = .origin := by simp [Point.sub_def, Point.origin]
  rw [motion, hzero, Turn.act_origin]
  simp [Point.add_def, Point.origin]

/-- No two points are moved to one. -/
theorem motion_injective {p q : Point} (h : motion start place t p = motion start place t q) :
    p = q := by
  have hact : t.act (p - start) = t.act (q - start) := by
    simp only [motion, Point.add_def, Point.mk.injEq] at h
    ext <;> omega
  have hsub := t.act_injective hact
  simp only [Point.sub_def, Point.mk.injEq] at hsub
  ext <;> omega

/-- **Relocating a unit moves its cells.** -/
theorem cells_relocated (offset : Int) (e : Element) :
    (relocated start place t offset e).cells = e.cells.map (motion start place t) := by
  rw [Element.cells, Element.cells, List.map_map]
  refine List.map_congr_left fun k _ => ?_
  -- the unit's own turn comes first, the turn of the circuit after it
  have hsplit : e.pos + e.turn.act k - start = (e.pos - start) + e.turn.act k := by
    ext <;> simp only [Point.add_x, Point.add_y, Point.add_z, Point.sub_x, Point.sub_y, Point.sub_z]
      <;> omega
  simp only [relocated, Function.comp_apply, motion, Turn.act_after, hsplit, Turn.act_add]
  ext <;> simp only [Point.add_x, Point.add_y, Point.add_z] <;> omega

end Motion

/-- Units whose cells are moved by one motion have cells in common as before. -/
theorem overlaps_iff_of_cells {start place : Point} {t : Turn} {e f u v : Element}
    (hu : u.cells = e.cells.map (motion start place t))
    (hv : v.cells = f.cells.map (motion start place t)) : u.Overlaps v ↔ e.Overlaps f := by
  rw [Element.Overlaps, hu, hv]
  constructor
  · rintro ⟨q, hq, hq'⟩
    obtain ⟨p, hp, rfl⟩ := List.mem_map.1 hq
    obtain ⟨p', hp', heq⟩ := List.mem_map.1 hq'
    rw [motion_injective start place t heq] at hp'
    exact ⟨p, hp, hp'⟩
  · rintro ⟨q, hq, hq'⟩
    exact ⟨_, List.mem_map_of_mem hq, List.mem_map_of_mem hq'⟩

end Circuit

/-! ### Modest circuits -/

/-- The coordinates are far from the ends of a word. -/
def Point.IsModest (p : Point) : Prop :=
  (-2 ^ 60 < p.x ∧ p.x < 2 ^ 60) ∧ (-2 ^ 60 < p.y ∧ p.y < 2 ^ 60) ∧ (-2 ^ 60 < p.z ∧ p.z < 2 ^ 60)

/-- The box of a unit whose coordinates and sizes are modest begins not far away. -/
theorem Element.le_fst_corners {e : Element} (hpos : e.pos.IsModest)
    (hsize : e.part.size.IsModest) {k : Point × Point} (h : e.corners = .ok k) :
    (⟨-2 ^ 61, -2 ^ 61, -2 ^ 61⟩ : Point) ≤ k.1 := by
  obtain ⟨hx, hy, hz⟩ := e.part.one_le_size
  simp only [Point.IsModest] at hpos hsize
  rw [corners_eq h]
  obtain ⟨x, y, z, handed⟩ := e.turn
  simp only [Point.le_def, Point.meet, Point.add_def, Point.sub_def, Point.one, Turn.act]
  cases x <;> cases y <;> cases handed <;> (simp only [Heading.along]; omega)

namespace Circuit

/-- The coordinates and the sizes of all units are far from the ends of a word. -/
structure Modest (c : Circuit) : Prop where
  places : ∀ e ∈ c.units, e.pos.IsModest
  sizes : ∀ e ∈ c.units, e.part.size.IsModest

/-- A modest circuit can be relocated. -/
theorem Modest.movable {c : Circuit} (h : c.Modest) : c.Movable := by
  have hbox : ∃ box, boundingBox c.units = .ok box := by
    rw [boundingBox_isOk_iff]
    intro e he
    refine Element.corners_isOk ?_
    have hsize := h.sizes e he
    simp only [Point.IsModest, Element.Reachable] at hsize ⊢
    omega
  refine ⟨hbox, fun e he => ?_⟩
  obtain ⟨box, hbox⟩ := hbox
  have hnear : (⟨-2 ^ 61, -2 ^ 61, -2 ^ 61⟩ : Point) ≤ box.1 := by
    refine le_start hbox (List.ne_nil_of_mem he) ?_
    intro u hu k hk
    exact Element.le_fst_corners (h.places u hu) (h.sizes u hu) hk
  have hle := start_le hbox he
  have hpos := h.places e he
  rw [corner_eq hbox]
  simp only [Point.le_def, Point.IsModest, Point.all, Bool.and_eq_true, Word.fits_iff,
    Point.sub_x, Point.sub_y, Point.sub_z] at hnear hle hpos ⊢
  omega

/-- Taking a circuit apart gives its relocated units, if it can be moved. -/
theorem takeApart_of_movable {c : Circuit} (h : c.Movable) (offset : Int) (place : Point)
    (t : Turn) : takeApart offset place t c
      = .ok (c.units.map (relocated c.corner place t offset))
          { c with units := c.units.map fun e =>
              { e with toDevice := e.toDevice.shiftWires offset } } := by
  obtain ⟨box, hbox⟩ := h.box
  have hunit : ∀ e ∈ c.units, giveUp box.1 t offset e
      = .ok ⟨⟩ { e with toDevice := e.toDevice.shiftWires offset } := by
    intro e he
    have hnear := h.near e he
    rw [corner_eq hbox] at hnear
    have hcount : Point.origin ≤ e.pos - box.1 := by
      have hle := start_le hbox he
      simp only [Point.le_def, Point.origin, Point.sub_x, Point.sub_y, Point.sub_z] at hle ⊢
      omega
    have hmoved := Reading.moved_of_fits t hcount hnear
    rw [giveUp, Loop.modify_bind, Loop.get_bind]
    simp only [hmoved]
    rfl
  have hzoom : Stepwise.zoom Circuit.units (fun units c => { c with units := units })
      (Stepwise.onEach (giveUp box.1 t offset)) c
        = .ok ⟨⟩ { c with units := c.units.map fun e =>
            { e with toDevice := e.toDevice.shiftWires offset } } :=
    Stepwise.zoom_eq_ok (Stepwise.onEach_eq_map hunit)
  rw [takeApart, Loop.get_bind, hbox]
  refine (Loop.bind_of_ok rfl).trans ((Loop.bind_of_ok hzoom).trans ?_)
  rw [relocate_of_movable offset place t h]
  rfl

end Circuit

/-! ### Moving a circuit as a whole -/

/-- A common vector cancels in a difference. -/
theorem Point.add_sub_add_right (p q v : Point) : p + v - (q + v) = p - q := by
  simp only [Point.add_def, Point.sub_def, Point.mk.injEq]
  omega

/-- A unit moved by a vector. -/
def Element.translate (v : Point) (e : Element) : Element := { e with pos := e.pos + v }

/-- The corners of a unit are moved with it. -/
theorem Element.corners_translate (v : Point) (e : Element) :
    (e.translate v).corners = e.corners.map fun k => (k.1 + v, k.2 + v) := by
  simp only [corners, translate]
  cases Reading.moved e.turn (e.part.size.map fun v => max (v - 1) 0) with
  | error fault => rfl
  | ok far =>
      refine congrArg Except.ok ?_
      simp only [Point.meet, Point.join, Point.add_def, Prod.mk.injEq, Point.mk.injEq]
      omega

namespace Circuit

/-- A circuit moved as a whole by a vector. -/
def translate (v : Point) (c : Circuit) : Circuit :=
  { c with units := c.units.map (Element.translate v) }

theorem hull_translate (v : Point) (a b : Point × Point) :
    hull (a.1 + v, a.2 + v) (b.1 + v, b.2 + v) = ((hull a b).1 + v, (hull a b).2 + v) := by
  simp only [hull, Point.meet, Point.join, Point.add_def, Prod.mk.injEq, Point.mk.injEq]
  omega

/-- A box that grows around units is moved with them. -/
theorem foldlM_hull_translate (v : Point) (units : List Element) (box : Point × Point) :
    (units.map (Element.translate v)).foldlM
        (fun box u => do pure (hull box (← Element.corners u))) (box.1 + v, box.2 + v)
      = (units.foldlM (fun box u => do pure (hull box (← Element.corners u))) box).map
          fun box : Point × Point => (box.1 + v, box.2 + v) := by
  induction units generalizing box with
  | nil => rfl
  | cons u rest ih =>
      rw [List.map_cons, List.foldlM_cons, List.foldlM_cons, Element.corners_translate]
      cases Element.corners u with
      | error fault => rfl
      | ok k =>
          refine Eq.trans ?_ (ih (hull box k))
          rw [← hull_translate]
          rfl

/-- The bounding box is moved with the units. -/
theorem boundingBox_translate (v : Point) {units : List Element} (hne : units ≠ []) :
    boundingBox (units.map (Element.translate v))
      = (boundingBox units).map fun box => (box.1 + v, box.2) := by
  cases units with
  | nil => exact absurd rfl hne
  | cons u rest =>
      simp only [List.map_cons, boundingBox, Element.corners_translate]
      cases u.corners with
      | error fault => rfl
      | ok first =>
          simp only [Except.map, Fault.ok_bind, foldlM_hull_translate]
          cases rest.foldlM (fun box u => do pure (hull box (← Element.corners u))) first with
          | error fault => rfl
          | ok box =>
              simp only [Fault.ok_bind, Point.add_sub_add_right]
              rfl

/-- **A circuit that was moved before is relocated to the same units.** -/
theorem relocate_translate (v : Point) (c : Circuit) (offset : Int) (place : Point) (t : Turn) :
    (c.translate v).relocate offset place t = c.relocate offset place t := by
  by_cases hne : c.units = []
  · simp [relocate, translate, hne]
  · simp only [relocate, translate, boundingBox_translate v hne]
    cases boundingBox c.units with
    | error fault => rfl
    | ok box =>
        simp only [Except.map, Fault.ok_bind, List.mapM_map]
        congr 1
        funext e
        simp only [Function.comp_apply, relocateUnit, Element.translate, Point.add_sub_add_right]

end Circuit

end Breadboard
