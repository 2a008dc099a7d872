import Breadboard.Proofs.Circuit.Extent

/-!
**Circuits that are turned.**

Turning a circuit turns all its cells about the origin, and so its bounding box.  A circuit that is
relocated is turned about the first corner of its box, which then stands at the given place, though
it need not be the first corner of the turned box.  So a circuit that was turned before is relocated
to the same units as one that is turned on the way, if its place is the first corner of the turned
box.

Main definitions:

* `Element.turned`, `Circuit.turned` — a unit and a circuit turned about the origin;
* `Circuit.IsTurned` — a circuit fills the turned cells of another one with the same devices.

Main results:

* `Turn.eq_of_act` — a turn is known by what it does to the points;
* `Element.cells_turned` — turning a unit turns its cells;
* `Circuit.rotate_of_modest` — a modest circuit can be turned;
* `Circuit.boundingBox_turned` — **the box of a turned circuit is the turned box**;
* `Circuit.relocate_turned` — **turning before is turning on the way**, at another place;
* `Circuit.turned_turned` — turning twice is turning once;
* `Circuit.rotate_acts` — **the turns act on circuits**, and the action keeps all but places.
-/

set_option autoImplicit false
set_option relaxedAutoImplicit false

namespace Breadboard

/-! ### Turned units -/

/-- A modest point is moved exactly. -/
theorem Reading.moved_of_isModest {p : Point} (t : Turn) (h : p.IsModest) :
    moved t p = .ok (t.act p) := by
  simp only [Point.IsModest] at h
  rw [moved, Turn.move_eq t (by omega) (by omega) (by omega)]

/-- The image of a modest point is modest. -/
theorem Point.IsModest.act {p : Point} (h : p.IsModest) (t : Turn) : (t.act p).IsModest := by
  obtain ⟨x, y, z, e⟩ := t
  simp only [IsModest] at h
  cases x <;> cases y <;> cases e <;>
    (simp only [IsModest, Turn.act, Heading.along, add_def]; omega)

/-- The cells of a unit whose coordinates and sizes are modest are not far away. -/
theorem Element.ahead_cells_lt {e : Element} (hpos : e.pos.IsModest)
    (hsize : e.part.size.IsModest) {q : Point} (hq : q ∈ e.cells) (g : Heading) :
    g.ahead q < 2 ^ 61 := by
  obtain ⟨k, hk, rfl⟩ := List.mem_map.1 hq
  have hin := Point.isInside_iff.1 (Point.mem_box.1 hk)
  have hmodest : k.IsModest := by
    simp only [Point.IsModest] at hsize ⊢
    omega
  have hturned := hmodest.act e.turn
  simp only [Point.IsModest] at hpos hturned
  cases g <;> simp only [Heading.ahead, Point.add_x, Point.add_y, Point.add_z] <;> omega

namespace Turn

/-- A turn keeps differences. -/
theorem act_sub (t : Turn) (p q : Point) : t.act (p - q) = t.act p - t.act q := by
  have hsum := t.act_add (p - q) q
  have hp : p - q + q = p := by
    ext <;> simp only [Point.add_x, Point.add_y, Point.add_z, Point.sub_x, Point.sub_y,
      Point.sub_z] <;> omega
  rw [hp] at hsum
  rw [hsum]
  ext <;> simp only [Point.add_x, Point.add_y, Point.add_z, Point.sub_x, Point.sub_y,
    Point.sub_z] <;> omega

/-- A turn is known by what it does to the points. -/
theorem eq_of_act {t s : Turn} (h : ∀ p, t.act p = s.act p) : t = s := by
  have hsend (g : Heading) : t.send g = s.send g := by
    have hvector : (t.send g).vector = (s.send g).vector := by
      rw [Heading.vector, Heading.vector, ← act_along, ← act_along, h]
    have hsome := congrArg Heading.ofVector? hvector
    rw [Heading.ofVector?_vector, Heading.ofVector?_vector] at hsome
    exact Option.some.inj hsome
  obtain ⟨x, y, z, _⟩ := t
  obtain ⟨x', y', z', _⟩ := s
  have hx : x = x' := hsend .posX
  have hy : y = y' := hsend .posY
  have hz : z = z' := hsend .posZ
  subst hx hy hz
  rfl

theorem after_assoc (p q r : Turn) : (p.after q).after r = p.after (q.after r) :=
  eq_of_act fun _ => by simp only [act_after]

theorem inverse_after (t : Turn) : t.inverse.after t = identity :=
  eq_of_act fun _ => by rw [act_after, act_inverse, act_identity]

/-- The box around turned corners has the turned size, its extents taken without their signs. -/
theorem extent_act (t : Turn) {start size : Point} (h : Point.one ≤ size) :
    (t.act start).join (t.act (start + size - .one))
        - (t.act start).meet (t.act (start + size - .one)) + .one
      = (t.act size).map fun v => v.natAbs := by
  obtain ⟨hx, hy, hz⟩ := h
  simp only [Point.one] at hx hy hz
  -- a turn sends each axis along an axis, so each extent is one of the extents before
  obtain ⟨x, y, z, e⟩ := t
  cases x <;> cases y <;> cases e <;>
    (simp only [act, Heading.along, Point.join, Point.meet, Point.map, Point.one, Point.add_def,
      Point.sub_def, Point.mk.injEq]; omega)

end Turn

namespace Element

/-- A unit turned about the origin. -/
def turned (t : Turn) (e : Element) : Element :=
  { e with pos := t.act e.pos, turn := t.after e.turn }

/-- **Turning a unit turns its cells.** -/
theorem cells_turned (t : Turn) (e : Element) : (e.turned t).cells = e.cells.map t.act := by
  rw [cells, cells, List.map_map]
  refine List.map_congr_left fun k _ => ?_
  simp only [turned, Function.comp_apply, Turn.act_after, Turn.act_add]

theorem turned_turned (q r : Turn) (e : Element) :
    (e.turned r).turned q = e.turned (q.after r) := by
  simp only [turned, Turn.act_after, Turn.after_assoc]

theorem turned_identity (e : Element) : e.turned .identity = e := by
  simp only [turned, Turn.act_identity, Turn.identity_after]

end Element

namespace Circuit

/-- A circuit turned about the origin. -/
def turned (t : Turn) (c : Circuit) : Circuit where
  units := c.units.map (Element.turned t)
  inputs := c.inputs
  outputs := c.outputs
  bounds := match boundingBox (c.units.map (Element.turned t)) with
    | .ok box => box.2
    | .error _ => .origin

theorem cellsOf_turned (t : Turn) (units : List Element) :
    cellsOf (units.map (Element.turned t)) = (cellsOf units).map t.act := by
  rw [cellsOf, cellsOf, List.flatMap_map, List.map_flatMap]
  exact List.flatMap_congr fun e _ => e.cells_turned t

/-- The slots of a turned circuit are those that it had. -/
theorem slots_turned (t : Turn) (c : Circuit) (side : Side) :
    (c.turned t).slots side = c.slots side := by
  cases side <;> rfl

/-- **Turning twice is turning once**, by the composition. -/
theorem turned_turned (q r : Turn) (c : Circuit) :
    (c.turned r).turned q = c.turned (q.after r) := by
  have hunits : (c.units.map (Element.turned r)).map (Element.turned q)
      = c.units.map (Element.turned (q.after r)) := by
    rw [List.map_map]
    exact List.map_congr_left fun e _ => e.turned_turned q r
  simp only [turned, hunits]

/-- A circuit whose size is that of its bounding box is not changed by the identity. -/
theorem turned_identity {c : Circuit}
    (hbounds : (boundingBox c.units).map Prod.snd = .ok c.bounds) : c.turned .identity = c := by
  have hunits : c.units.map (Element.turned .identity) = c.units := by
    rw [List.map_congr_left fun e _ => e.turned_identity, List.map_id']
  obtain ⟨units, inputs, outputs, bounds⟩ := c
  simp only [turned, hunits, mk.injEq, true_and]
  cases hbox : boundingBox units with
  | error fault =>
      rw [hbox] at hbounds
      cases hbounds
  | ok box =>
      rw [hbox] at hbounds
      exact Except.ok.inj hbounds

/-- A turned circuit is as modest as before. -/
theorem Modest.turned {c : Circuit} (h : c.Modest) (t : Turn) : (c.turned t).Modest := by
  constructor
  · intro e he
    obtain ⟨u, hu, rfl⟩ := List.mem_map.1 he
    exact (h.places u hu).act t
  · intro e he
    obtain ⟨u, hu, rfl⟩ := List.mem_map.1 he
    exact h.sizes u hu

/-- **A modest circuit can be turned.** -/
theorem rotate_of_modest {c : Circuit} (h : c.Modest) (t : Turn) :
    rotate t c = .ok () (c.turned t) := by
  have hunits : c.units.mapM (rotateUnit t) = .ok (c.units.map (Element.turned t)) := by
    refine Loop.mapM_eq_map fun e he => ?_
    rw [rotateUnit, Reading.moved_of_isModest t (h.places e he)]
    rfl
  obtain ⟨box, hbox⟩ := (h.turned t).movable.box
  have hbox : boundingBox (c.units.map (Element.turned t)) = .ok box := hbox
  have hfirst : answer (c.units.mapM (rotateUnit t)) c
      = .ok (c.units.map (Element.turned t)) c := by
    rw [hunits]
    rfl
  rw [rotate, Loop.get_bind, Loop.bind_of_ok hfirst, Loop.modify_bind, refreshBounds,
    Loop.get_bind]
  simp only [hbox, turned]
  rfl

section Box

variable {c : Circuit} {start size : Point}

/-- A box around units has at least one layer on each axis. -/
theorem one_le_size (h : boundingBox c.units = .ok (start, size)) (hne : c.units ≠ []) :
    Point.one ≤ size := by
  have hle := (spans_of_boundingBox h hne).le
  simp only [Point.le_def, Point.add_x, Point.add_y, Point.add_z, Point.sub_x, Point.sub_y,
    Point.sub_z] at hle ⊢
  omega

/-- The box of a modest circuit is far from as long as a word reaches. -/
theorem Modest.size_le (hmodest : c.Modest) (h : boundingBox c.units = .ok (start, size))
    (hne : c.units ≠ []) : size.x ≤ 2 ^ 62 ∧ size.y ≤ 2 ^ 62 ∧ size.z ≤ 2 ^ 62 := by
  have hspans := spans_of_boundingBox h hne
  have hnear (g : Heading) : max (g.ahead start) (g.ahead (start + size - .one)) < 2 ^ 61 := by
    obtain ⟨q, hq, hreach⟩ := hspans.reached g
    obtain ⟨e, he, hq⟩ := List.mem_flatMap.1 hq
    rw [← hreach]
    exact Element.ahead_cells_lt (hmodest.places e he) (hmodest.sizes e he) hq g
  have hpx := hnear .posX
  have hnx := hnear .negX
  have hpy := hnear .posY
  have hny := hnear .negY
  have hpz := hnear .posZ
  have hnz := hnear .negZ
  simp only [Heading.ahead, Point.one, Point.add_x, Point.add_y, Point.add_z, Point.sub_x,
    Point.sub_y, Point.sub_z] at hpx hnx hpy hny hpz hnz
  omega

/-- The far corner of a modest circuit can be turned. -/
theorem Modest.moved_size (hmodest : c.Modest) (h : boundingBox c.units = .ok (start, size))
    (hne : c.units ≠ []) (t : Turn) :
    Reading.moved t (size - .one) = .ok (t.act (size - .one)) := by
  obtain ⟨hx, hy, hz⟩ := one_le_size h hne
  obtain ⟨hx', hy', hz'⟩ := hmodest.size_le h hne
  simp only [Point.one] at hx hy hz
  rw [Reading.moved, t.move_eq] <;>
    (simp only [Point.one, Point.sub_x, Point.sub_y, Point.sub_z]; omega)

/-- **The box of a turned circuit is the turned box.** -/
theorem boundingBox_turned (h : boundingBox c.units = .ok (start, size)) (hne : c.units ≠ [])
    (t : Turn) : boundingBox (c.turned t).units
      = .ok ((t.act start).meet (t.act (start + size - .one)),
          (t.act size).map fun v => v.natAbs) := by
  have hspans := (spans_of_boundingBox h hne).map_act t
  rw [← cellsOf_turned] at hspans
  have hbox : ∃ box, boundingBox (c.units.map (Element.turned t)) = .ok box := by
    refine boundingBox_isOk_of_parts (fun e he => ?_) ⟨_, h⟩
    obtain ⟨u, hu, rfl⟩ := List.mem_map.1 he
    exact ⟨u, hu, rfl⟩
  rw [← t.extent_act (one_le_size h hne)]
  exact boundingBox_of_spans hbox (fun hnil => hne (List.map_eq_nil_iff.1 hnil)) hspans

/-- **The size of a turned circuit is the turned size.** -/
theorem Modest.moveSize_bounds (hmodest : c.Modest)
    (hbounds : (boundingBox c.units).map Prod.snd = .ok c.bounds) (t : Turn) :
    t.moveSize c.bounds = some (c.turned t).bounds := by
  by_cases hne : c.units = []
  · rw [hne] at hbounds
    have hzero : Point.origin = c.bounds := Except.ok.inj hbounds
    have hmove : t.move .origin = some .origin := by
      rw [t.move_eq (by decide) (by decide) (by decide), t.act_origin]
    rw [← hzero, Turn.moveSize, hmove, Circuit.turned, hne]
    rfl
  · obtain ⟨⟨start, size⟩, hbox⟩ := hmodest.movable.box
    rw [hbox] at hbounds
    have hsize : size = c.bounds := Except.ok.inj hbounds
    have hturned : boundingBox (c.units.map (Element.turned t)) = _ :=
      boundingBox_turned hbox hne t
    obtain ⟨hx, hy, hz⟩ := one_le_size hbox hne
    obtain ⟨hx', hy', hz'⟩ := hmodest.size_le hbox hne
    simp only [Point.one] at hx hy hz
    rw [Turn.moveSize, ← hsize, t.move_eq (by omega) (by omega) (by omega)]
    simp only [Circuit.turned, hturned]
    rfl

/-- **Turning before is turning on the way**: a circuit that was turned before comes to stand where
it is turned on the way, if its place is the first corner of the box that is turned there. -/
theorem relocate_turned (h : boundingBox c.units = .ok (start, size)) (hne : c.units ≠ [])
    (hmodest : c.Modest) (offset : Int) (place : Point) (t : Turn) :
    (c.turned t).relocate offset (place + Point.origin.meet (t.act (size - .one))) .identity
      = c.relocate offset place t := by
  have hturned := boundingBox_turned h hne t
  rw [relocate_of_movable _ _ _ (hmodest.turned t).movable, corner_eq hturned,
    relocate_of_movable _ _ _ hmodest.movable, corner_eq h]
  refine congrArg Except.ok ?_
  show (c.units.map (Element.turned t)).map _ = _
  rw [List.map_map]
  refine List.map_congr_left fun e _ => ?_
  have hstop : t.act (start + size - .one) = t.act start + t.act (size - .one) := by
    rw [← Turn.act_add]
    congr 1
    ext <;> simp only [Point.add_x, Point.add_y, Point.add_z, Point.sub_x, Point.sub_y,
      Point.sub_z] <;> omega
  have hpos : t.act e.pos - (t.act start).meet (t.act (start + size - .one))
        + (place + Point.origin.meet (t.act (size - .one)))
      = t.act (e.pos - start) + place := by
    rw [hstop, t.act_sub e.pos start]
    ext <;> simp only [Point.meet, Point.origin, Point.add_x, Point.add_y, Point.add_z,
      Point.sub_x, Point.sub_y, Point.sub_z] <;> omega
  simp only [Function.comp_apply, relocated, Element.turned, Turn.act_identity,
    Turn.identity_after, hpos]

end Box

/-! ### The action -/

/-- A circuit is another one, turned about the origin: unit by unit it fills the turned cells with
the same device, and it has the same slots. -/
structure IsTurned (t : Turn) (c d : Circuit) : Prop where
  cells : d.units.map Element.cells = c.units.map fun e => e.cells.map t.act
  devices : d.units.map Element.toDevice = c.units.map Element.toDevice
  inputs : d.inputs = c.inputs
  outputs : d.outputs = c.outputs

theorem isTurned_turned (t : Turn) (c : Circuit) : IsTurned t c (c.turned t) where
  cells := by
    simp only [turned, List.map_map]
    exact List.map_congr_left fun e _ => e.cells_turned t
  devices := by
    simp only [turned, List.map_map]
    rfl
  inputs := rfl
  outputs := rfl

/-- **The turns act on circuits.**  A modest circuit whose size is that of its bounding box can be
turned by `r`: its cells and its size are turned, and devices and slots stay as they are.  The turn
back restores it, and a further turn leads to the same circuit as the composition. -/
theorem rotate_acts {c : Circuit} (hmodest : c.Modest)
    (hbounds : (boundingBox c.units).map Prod.snd = .ok c.bounds) (r : Turn) :
    ∃ d, rotate r c = .ok () d ∧ IsTurned r c d
      ∧ r.moveSize c.bounds = some d.bounds
      ∧ rotate r.inverse d = .ok () c
      ∧ ∀ q : Turn, ∃ f, rotate q d = .ok () f ∧ rotate (q.after r) c = .ok () f := by
  have hfurther (q : Turn) : rotate q (c.turned r) = .ok () (c.turned (q.after r)) := by
    rw [rotate_of_modest (hmodest.turned r), turned_turned]
  refine ⟨c.turned r, rotate_of_modest hmodest r, isTurned_turned r c,
    hmodest.moveSize_bounds hbounds r, ?_, fun q => ⟨_, hfurther q, rotate_of_modest hmodest _⟩⟩
  rw [hfurther, Turn.inverse_after, turned_identity hbounds]

/-- The units of the yard, reached by their timer and their gate. -/
def fenced : Circuit :=
  ⟨yard, [Slot.point "start" defaultKind 0], [Slot.point "done" defaultKind 2], ⟨7, 4, 5⟩⟩

theorem rotate_acts_fenced :
    fenced.Modest ∧ (boundingBox fenced.units).map Prod.snd = .ok fenced.bounds
      ∧ ∃ d, rotate .quarterX fenced = .ok () d ∧ IsTurned .quarterX fenced d
        ∧ d.bounds = ⟨7, 5, 4⟩
        ∧ rotate Turn.quarterX.inverse d = .ok () fenced
        ∧ ∃ f, rotate .quarterZ d = .ok () f
          ∧ rotate (Turn.quarterZ.after .quarterX) fenced = .ok () f := by
  have hmodest : fenced.Modest := by
    constructor <;>
      simp [fenced, yard, Point.IsModest, Device.ofPart, Part.size, Point.one]
  have hbounds : (boundingBox fenced.units).map Prod.snd = .ok fenced.bounds := rfl
  obtain ⟨d, hrotate, hturned, hsize, hback, hfurther⟩ := rotate_acts hmodest hbounds .quarterX
  have hvalue : Turn.quarterX.moveSize fenced.bounds = some ⟨7, 5, 4⟩ := by decide
  rw [hvalue] at hsize
  exact ⟨hmodest, hbounds, d, hrotate, hturned, (Option.some.inj hsize).symm, hback,
    hfurther .quarterZ⟩

end Circuit

end Breadboard
