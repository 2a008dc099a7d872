import Breadboard.Circuit.Motion
import Breadboard.Proofs.Loop

/-!
**Bounding boxes and relocated units.**

The first corner of a bounding box is the coordinatewise minimum of the units' lower corners, so no
unit lies before it.  Relative to that corner all coordinates are counts, and on counts that fit a
word the word arithmetic of a turn is the exact rotation.

Main definitions:

* `Point.le` — the order on each axis;
* `Circuit.corner` — the first corner of the bounding box;
* `Circuit.Movable` — circuits that can be put somewhere else.

Main results:

* `Reading.moved_of_fits` — **counts are moved exactly if they fit a word**;
* `Circuit.start_le` — no unit lies before the first corner of the bounding box;
* `Circuit.boundingBox_isOk_iff` — **a bounding box exists exactly if every unit has corners**;
* `Circuit.boundingBox_isOk_of_parts` — and that depends on the parts of the units only;
* `Circuit.relocate_of_movable`, `Circuit.relocate_of_not_movable` — **the units of a circuit after
  it has been relocated**, and when it cannot be. -/

set_option autoImplicit false
set_option relaxedAutoImplicit false

namespace Breadboard

namespace Point

/-! ### The order on each axis -/

/-- At most as great on each axis. -/
instance le : LE Point := ⟨fun a b => a.x ≤ b.x ∧ a.y ≤ b.y ∧ a.z ≤ b.z⟩

theorem le_def {a b : Point} : a ≤ b ↔ a.x ≤ b.x ∧ a.y ≤ b.y ∧ a.z ≤ b.z := Iff.rfl

theorem le_refl (a : Point) : a ≤ a := ⟨Int.le_refl _, Int.le_refl _, Int.le_refl _⟩

theorem le_trans {a b c : Point} (h : a ≤ b) (k : b ≤ c) : a ≤ c :=
  ⟨Int.le_trans h.1 k.1, Int.le_trans h.2.1 k.2.1, Int.le_trans h.2.2 k.2.2⟩

theorem meet_le_left (a b : Point) : a.meet b ≤ a :=
  ⟨Int.min_le_left _ _, Int.min_le_left _ _, Int.min_le_left _ _⟩

theorem meet_le_right (a b : Point) : a.meet b ≤ b :=
  ⟨Int.min_le_right _ _, Int.min_le_right _ _, Int.min_le_right _ _⟩

theorem le_meet {a b c : Point} (h : c ≤ a) (k : c ≤ b) : c ≤ a.meet b :=
  ⟨Int.le_min.2 ⟨h.1, k.1⟩, Int.le_min.2 ⟨h.2.1, k.2.1⟩, Int.le_min.2 ⟨h.2.2, k.2.2⟩⟩

end Point

/-- A turn does not move the origin. -/
theorem Turn.act_origin (t : Turn) : t.act .origin = .origin := by
  have h (g : Heading) : g.along 0 = .origin := by cases g <;> rfl
  simp only [act, Point.origin] at h ⊢
  rw [h, h, h]
  rfl

namespace Reading

/-! ### Moving a point whose coordinates are counts -/

/-- The coordinates are counts that fit a word. -/
def isCount (p : Point) : Prop :=
  (0 ≤ p.x ∧ p.x < 9223372036854775808) ∧ (0 ≤ p.y ∧ p.y < 9223372036854775808)
    ∧ (0 ≤ p.z ∧ p.z < 9223372036854775808)

/-- Counts that fit a word are moved exactly. -/
theorem moved_of_isCount {p : Point} (t : Turn) (h : isCount p) : moved t p = .ok (t.act p) := by
  obtain ⟨hx, hy, hz⟩ := h
  rw [moved, Turn.move_eq t (by omega) (by omega) (by omega)]

/-- What does not fit a word is not moved. -/
theorem moved_eq_error {t : Turn} {p : Point} (h : p.all Word.fits = false) :
    moved t p = .error .outOfRange := by
  rw [moved, Turn.move, h]
  rfl

theorem fault_of_moved {t : Turn} {p : Point} {fault : Fault} (h : moved t p = .error fault) :
    fault = .outOfRange := by
  unfold moved at h
  split at h
  · cases h
  · cases h
    rfl

/-- **Counts are moved exactly if they fit a word.** -/
theorem moved_of_fits {p : Point} (t : Turn) (hp : Point.origin ≤ p)
    (hfit : p.all Word.fits = true) : moved t p = .ok (t.act p) := by
  simp only [Point.all, Bool.and_eq_true, Word.fits_iff] at hfit
  obtain ⟨hx, hy, hz⟩ := hp
  simp only [Point.origin] at hx hy hz
  exact moved_of_isCount t ⟨⟨hx, hfit.1.1.2⟩, ⟨hy, hfit.1.2.2⟩, ⟨hz, hfit.2.2⟩⟩

end Reading

namespace Element

/-! ### Corners of a unit -/

/-- The box of a unit begins at or before its first cell. -/
theorem fst_corners_le {e : Element} {k : Point × Point} (h : e.corners = .ok k) :
    k.1 ≤ e.pos := by
  obtain ⟨far, _, h⟩ := Fault.bind_eq_ok_iff.1 h
  cases h
  exact Point.meet_le_left _ _

/-- The extents of a part reach no further than a word. -/
def Reachable (size : Point) : Prop :=
  size.x ≤ 9223372036854775808 ∧ size.y ≤ 9223372036854775808 ∧ size.z ≤ 9223372036854775808

/-- **Whether a unit has corners depends on its part only.** -/
theorem corners_isOk_iff {e : Element} :
    (∃ k, e.corners = .ok k) ↔ (e.part.size.map fun v => max (v - 1) 0).all Word.fits = true := by
  constructor
  · rintro ⟨k, h⟩
    obtain ⟨far, hfar, _⟩ := Fault.bind_eq_ok_iff.1 h
    cases hfit : (e.part.size.map fun v => max (v - 1) 0).all Word.fits with
    | true => rfl
    | false =>
        rw [Reading.moved_eq_error hfit] at hfar
        cases hfar
  · intro hfit
    have hcount : Point.origin ≤ e.part.size.map fun v => max (v - 1) 0 := by
      simp only [Point.le_def, Point.map, Point.origin]
      omega
    exact ⟨_, Fault.bind_eq_ok_iff.2 ⟨_, Reading.moved_of_fits e.turn hcount hfit, rfl⟩⟩

/-- A unit has corners if the extents of its part reach no further than a word. -/
theorem corners_isOk {e : Element} (h : Reachable e.part.size) : ∃ k, e.corners = .ok k := by
  obtain ⟨hx, hy, hz⟩ := h
  rw [corners_isOk_iff]
  simp only [Point.all, Point.map, Bool.and_eq_true, Word.fits_iff]
  omega

/-- A unit has no corners only if its extents do not fit a word. -/
theorem fault_of_corners {e : Element} {fault : Fault} (h : e.corners = .error fault) :
    fault = .outOfRange := by
  rcases Fault.bind_eq_error_iff.1 h with hfails | ⟨_, _, h⟩
  · exact Reading.fault_of_moved hfails
  · cases h

/-- A unit of a single cell is its own corner. -/
theorem corners_of_size_one {e : Element} (h : e.part.size = .one) :
    e.corners = .ok (e.pos, e.pos) := by
  have hzero : e.part.size.map (fun v => max (v - 1) 0) = .origin := by rw [h]; rfl
  have hcount : Reading.isCount .origin := by simp [Reading.isCount, Point.origin]
  have hfar : e.pos + Point.origin = e.pos := by simp [Point.add_def, Point.origin]
  unfold corners
  rw [hzero, Reading.moved_of_isCount e.turn hcount, Turn.act_origin]
  show Except.ok (e.pos.meet (e.pos + .origin), e.pos.join (e.pos + .origin)) = _
  rw [hfar]
  simp [Point.meet, Point.join]

end Element

namespace Circuit

/-! ### The box around a list of units -/

/-- A bounding box is the hull of the boxes of its units. -/
theorem boundingBox_cons_eq_ok {e : Element} {rest : List Element} {box : Point × Point}
    (h : boundingBox (e :: rest) = .ok box) :
    ∃ first last, e.corners = .ok first
      ∧ rest.foldlM (fun box u => do pure (hull box (← u.corners))) first = .ok last
      ∧ box.1 = last.1 := by
  obtain ⟨first, hfirst, h⟩ := Fault.bind_eq_ok_iff.1 h
  obtain ⟨last, hlast, h⟩ := Fault.bind_eq_ok_iff.1 h
  cases h
  exact ⟨first, last, hfirst, hlast, rfl⟩

/-- Growing a box moves its first corner back, to or before the box of every unit. -/
theorem fst_grow_le {units : List Element} {first last : Point × Point}
    (h : units.foldlM (fun box u => do pure (hull box (← u.corners))) first
      = Except.ok (ε := Fault) last) :
    last.1 ≤ first.1 ∧ ∀ e ∈ units, ∃ k, e.corners = .ok k ∧ last.1 ≤ k.1 := by
  induction units generalizing first with
  | nil => cases h; exact ⟨Point.le_refl _, by simp⟩
  | cons e rest ih =>
      rw [List.foldlM_cons] at h
      obtain ⟨box, hbox, h⟩ := Fault.bind_eq_ok_iff.1 h
      obtain ⟨k, hk, hbox⟩ := Fault.bind_eq_ok_iff.1 hbox
      cases hbox
      obtain ⟨hle, hrest⟩ := ih h
      refine ⟨Point.le_trans hle (Point.meet_le_left _ _), fun u hu => ?_⟩
      rcases List.mem_cons.1 hu with rfl | hu
      · exact ⟨k, hk, Point.le_trans hle (Point.meet_le_right _ _)⟩
      · exact hrest u hu

/-- The bounding box begins at or before the box of every unit. -/
theorem start_le_corners {units : List Element} {box : Point × Point}
    (h : boundingBox units = .ok box) {e : Element} (he : e ∈ units) :
    ∃ k, e.corners = .ok k ∧ box.1 ≤ k.1 := by
  cases units with
  | nil => cases he
  | cons u rest =>
      obtain ⟨first, last, hfirst, hlast, hbox⟩ := boundingBox_cons_eq_ok h
      obtain ⟨hle, hrest⟩ := fst_grow_le hlast
      rw [hbox]
      rcases List.mem_cons.1 he with rfl | he
      · exact ⟨first, hfirst, hle⟩
      · exact hrest e he

/-- No unit lies before the first corner of the bounding box. -/
theorem start_le {units : List Element} {box : Point × Point} (h : boundingBox units = .ok box)
    {e : Element} (he : e ∈ units) : box.1 ≤ e.pos := by
  obtain ⟨k, hk, hle⟩ := start_le_corners h he
  exact Point.le_trans hle (Element.fst_corners_le hk)

/-- A point that lies before the boxes of all units lies before the bounding box. -/
theorem le_start {units : List Element} {box : Point × Point} {q : Point}
    (h : boundingBox units = .ok box) (hne : units ≠ [])
    (hq : ∀ e ∈ units, ∀ k, e.corners = .ok k → q ≤ k.1) : q ≤ box.1 := by
  cases units with
  | nil => exact absurd rfl hne
  | cons u rest =>
      obtain ⟨first, last, hfirst, hlast, hbox⟩ := boundingBox_cons_eq_ok h
      rw [hbox]
      refine Loop.foldlM_invariant (fun box => q ≤ box.1) hlast
        (hq u List.mem_cons_self first hfirst) ?_
      intro e he box box' hle hstep
      obtain ⟨k, hk, hstep⟩ := Fault.bind_eq_ok_iff.1 hstep
      cases hstep
      exact Point.le_meet hle (hq e (List.mem_cons_of_mem u he) k hk)

/-- **A bounding box exists exactly if every unit has corners.** -/
theorem boundingBox_isOk_iff {units : List Element} :
    (∃ box, boundingBox units = .ok box) ↔ ∀ e ∈ units, ∃ k, e.corners = .ok k := by
  cases units with
  | nil => simp [boundingBox]
  | cons u rest =>
      constructor
      · rintro ⟨box, h⟩ e he
        obtain ⟨first, last, hfirst, hlast, _⟩ := boundingBox_cons_eq_ok h
        rcases List.mem_cons.1 he with rfl | he
        · exact ⟨first, hfirst⟩
        · obtain ⟨box, box', hstep⟩ := Loop.exists_step hlast he
          obtain ⟨k, hk, _⟩ := Fault.bind_eq_ok_iff.1 hstep
          exact ⟨k, hk⟩
      · intro h
        obtain ⟨first, hfirst⟩ := h u List.mem_cons_self
        obtain ⟨last, hlast, _⟩ := Loop.foldlM_isOk (fun _ => True) (s := first) trivial
          (f := fun box (e : Element) => do pure (hull box (← e.corners)))
          (l := rest) fun e he box _ => by
            obtain ⟨k, hk⟩ := h e (List.mem_cons_of_mem u he)
            exact ⟨hull box k, Fault.bind_eq_ok_iff.2 ⟨k, hk, rfl⟩, trivial⟩
        exact ⟨_, Fault.bind_eq_ok_iff.2 ⟨first, hfirst,
          Fault.bind_eq_ok_iff.2 ⟨last, hlast, rfl⟩⟩⟩

/-- Whether there is a bounding box depends on the parts only. -/
theorem boundingBox_isOk_of_parts {units units' : List Element}
    (hparts : ∀ e ∈ units', ∃ u ∈ units, e.part = u.part)
    (h : ∃ box, boundingBox units = .ok box) : ∃ box, boundingBox units' = .ok box := by
  rw [boundingBox_isOk_iff] at h ⊢
  intro e he
  obtain ⟨u, hu, hpart⟩ := hparts e he
  rw [Element.corners_isOk_iff, hpart, ← Element.corners_isOk_iff]
  exact h u hu

/-- There is no bounding box only if the extents of a unit do not fit a word. -/
theorem fault_of_boundingBox {units : List Element} {fault : Fault}
    (h : boundingBox units = .error fault) : fault = .outOfRange := by
  cases units with
  | nil => cases h
  | cons u rest =>
      rcases Fault.bind_eq_error_iff.1 h with hfirst | ⟨first, _, h⟩
      · exact Element.fault_of_corners hfirst
      · rcases Fault.bind_eq_error_iff.1 h with hlast | ⟨_, _, h⟩
        · obtain ⟨e, _, box, hstep⟩ := Loop.exists_step_of_error hlast
          rcases Fault.bind_eq_error_iff.1 hstep with hcorners | ⟨_, _, hstep⟩
          · exact Element.fault_of_corners hcorners
          · cases hstep
        · cases h

/-! ### Relocated units -/

/-- A unit taken relative to `start`, turned exactly and moved to `place`, its connections shifted
by `offset`. -/
def relocated (start place : Point) (t : Turn) (offset : Int) (e : Element) : Element :=
  { e with
    toDevice := e.toDevice.shiftWires offset
    pos := t.act (e.pos - start) + place
    turn := t.after e.turn }

/-- The first corner of the bounding box. -/
def corner (c : Circuit) : Point :=
  match boundingBox c.units with
  | .ok box => box.1
  | .error _ => .origin

theorem corner_eq {c : Circuit} {box : Point × Point} (h : boundingBox c.units = .ok box) :
    c.corner = box.1 := by
  rw [corner, h]

/-- A circuit can be moved: it has a bounding box, and no unit is so far from its first corner that
the distance does not fit a word. -/
structure Movable (c : Circuit) : Prop where
  box : ∃ box, boundingBox c.units = .ok box
  near : ∀ e ∈ c.units, (e.pos - c.corner).all Word.fits = true

section Relocate

variable {c : Circuit} (offset : Int) (place : Point) (t : Turn)

/-- **The units of a circuit after it has been relocated.** -/
theorem relocate_of_movable (h : c.Movable) :
    c.relocate offset place t = .ok (c.units.map (relocated c.corner place t offset)) := by
  obtain ⟨⟨start, size⟩, hbox⟩ := h.box
  have hnear := h.near
  rw [corner_eq hbox] at hnear ⊢
  refine Fault.bind_eq_ok_iff.2 ⟨(start, size), hbox, Loop.mapM_eq_map fun e he => ?_⟩
  have hle := start_le hbox he
  have hcount : Point.origin ≤ e.pos - start := by
    simp only [Point.le_def, Point.origin, Point.sub_x, Point.sub_y, Point.sub_z] at hle ⊢
    omega
  rw [relocateUnit, Reading.moved_of_fits t hcount (hnear e he)]
  rfl

/-- A circuit that cannot be moved is not relocated. -/
theorem relocate_of_not_movable (h : ¬ c.Movable) :
    c.relocate offset place t = .error .outOfRange := by
  cases hbox : boundingBox c.units with
  | error fault =>
      rw [relocate, hbox, fault_of_boundingBox hbox]
      rfl
  | ok box =>
      -- some unit is too far away, and the others are moved or fail in the same way
      have hfar : ∃ e ∈ c.units, (e.pos - box.1).all Word.fits = false := by
        by_contra hno
        refine h ⟨⟨box, hbox⟩, fun e he => ?_⟩
        rw [corner_eq hbox]
        exact Bool.not_eq_false _ ▸ fun hfit => hno ⟨e, he, hfit⟩
      have hfails : c.units.mapM (relocateUnit box.1 place t offset) = .error .outOfRange := by
        refine Loop.mapM_eq_error (fun e _ => ?_) ?_
        · cases hfit : (e.pos - box.1).all Word.fits with
          | true => exact .inl ⟨_, by rw [relocateUnit, Reading.moved, Turn.move, hfit]; rfl⟩
          | false => exact .inr (by rw [relocateUnit, Reading.moved_eq_error hfit]; rfl)
        · obtain ⟨e, he, hfit⟩ := hfar
          exact ⟨e, he, by rw [relocateUnit, Reading.moved_eq_error hfit]; rfl⟩
      rw [relocate, hbox]
      exact hfails

end Relocate

end Circuit

end Breadboard
