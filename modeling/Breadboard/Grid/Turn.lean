import Breadboard.Grid.Heading
import Breadboard.Number.Word

/-!
**The twenty-four rotations of the grid.**

A turn is given by the headings to which it sends the axes `x`, `y` and `z`.  The third is the
vector product of the first two, so every turn is a rotation and never a reflection.

Main definitions:

* `Turn.act` — a turn moves a point, over all integers;
* `Turn.move` — the same in word arithmetic, which a point too far away leaves;
* `Turn.after` — composition, `q.after r` turns by `r` first;
* `Turn.inverse` — the turn back;
* `Turn.ofQuarters` — quarter turns about `x`, then `y`, then `z`;
* `Turn.ofRows?` — the turn with the given matrix;
* `Turn.facing` — the turn that makes a part face along a heading.

Main results:

* `Turn.act_after` — **composition acts as one turn after the other**;
* `Turn.act_inverse` — the inverse leads back;
* `Turn.move_eq` — within half the range of a word, `Turn.move` is `Turn.act`.
-/

set_option autoImplicit false
set_option relaxedAutoImplicit false

namespace Breadboard

/-- A rotation of the grid, by the images of its axes. -/
structure Turn where
  x : Heading
  y : Heading
  z : Heading
  handed : x.cross y = some z
  deriving DecidableEq

namespace Turn

def identity : Turn := ⟨.posX, .posY, .posZ, rfl⟩

instance : Inhabited Turn := ⟨identity⟩

def quarterX : Turn := ⟨.posX, .posZ, .negY, rfl⟩

def quarterY : Turn := ⟨.negZ, .posY, .posX, rfl⟩

def quarterZ : Turn := ⟨.posY, .negX, .posZ, rfl⟩

def act (t : Turn) (p : Point) : Point := t.x.along p.x + t.y.along p.y + t.z.along p.z

/-- The image of a heading. -/
def send (t : Turn) : Heading → Heading
  | .posX => t.x
  | .negX => t.x.opposite
  | .posY => t.y
  | .negY => t.y.opposite
  | .posZ => t.z
  | .negZ => t.z.opposite

theorem cross_send (t : Turn) (g h : Heading) :
    (t.send g).cross (t.send h) = (g.cross h).map t.send := by
  obtain ⟨x, y, z, e⟩ := t
  cases x <;> cases y <;> cases e <;> cases g <;> cases h <;> rfl

def after (q r : Turn) : Turn where
  x := q.send r.x
  y := q.send r.y
  z := q.send r.z
  handed := by rw [cross_send, r.handed]; rfl

/-- The heading that the turn sends to `h`. -/
def source (t : Turn) (h : Heading) : Heading :=
  if t.x = h then .posX
  else if t.x.opposite = h then .negX
  else if t.y = h then .posY
  else if t.y.opposite = h then .negY
  else if t.z = h then .posZ
  else .negZ

theorem cross_source (t : Turn) (g h : Heading) :
    (t.source g).cross (t.source h) = (g.cross h).map t.source := by
  obtain ⟨x, y, z, e⟩ := t
  cases x <;> cases y <;> cases e <;> cases g <;> cases h <;> rfl

def inverse (t : Turn) : Turn where
  x := t.source .posX
  y := t.source .posY
  z := t.source .posZ
  handed := by rw [cross_source]; rfl

/-- The turn repeated `n` times; four quarter turns about an axis cancel, so only `n` modulo four
matters for those. -/
def power (t : Turn) : Nat → Turn
  | 0 => identity
  | n + 1 => t.after (t.power n)

/-- Quarter turns about the `x` axis, then about the `y` axis, then about the `z` axis. -/
def ofQuarters (turnsX turnsY turnsZ : Int) : Turn :=
  (quarterZ.power (turnsZ % 4).toNat).after
    ((quarterY.power (turnsY % 4).toNat).after (quarterX.power (turnsX % 4).toNat))

/-- All turns, in the order in which the counts of quarter turns about `x`, `y` and `z` first reach
them. -/
def all : List Turn :=
  ((List.range 4).flatMap fun i => (List.range 4).flatMap fun j => (List.range 4).map fun k =>
    ofQuarters (Int.ofNat i) (Int.ofNat j) (Int.ofNat k)).eraseDups

/-! ### Matrices -/

/-- The rows of the matrix of a turn. -/
def rows (t : Turn) : List (List Int) :=
  [[t.x.vector.x, t.y.vector.x, t.z.vector.x],
   [t.x.vector.y, t.y.vector.y, t.z.vector.y],
   [t.x.vector.z, t.y.vector.z, t.z.vector.z]]

/-- Why a matrix of words is not the matrix of a turn. -/
inductive MatrixFlaw where
  /-- The rows are not orthonormal, or there are not three of length three. -/
  | notOrthogonal
  /-- The rows are orthonormal but turn the space inside out. -/
  | reflection
  deriving DecidableEq

/-- The scalar product in word arithmetic. -/
def wordDot (a b : List Int) : Int :=
  ((a.zip b).map fun v => v.1 * v.2).foldl (fun s v => Word.wrap (s + v)) 0

/-- The rows are three orthonormal triples as far as word arithmetic tells. -/
def orthonormal (m : List (List Int)) : Bool :=
  m.length == 3 && m.all (fun r => r.length == 3)
    && (m.zipIdx.all fun a => m.zipIdx.all fun b =>
      wordDot a.1 b.1 == if a.2 = b.2 then 1 else 0)

/-- The determinant of three rows of three. -/
def determinant : List (List Int) → Int
  | [[a, b, c], [d, e, f], [g, h, i]] =>
      a * (e * i - f * h) - b * (d * i - f * g) + c * (d * h - e * g)
  | _ => 0

/-- The turn that sends the axes to the given unit vectors, if they are right-handed. -/
def ofColumns? (x y z : Point) : Option Turn := do
  let x ← Heading.ofVector? x
  let y ← Heading.ofVector? y
  let z ← Heading.ofVector? z
  if h : x.cross y = some z then some ⟨x, y, z, h⟩ else none

/-- The turn whose matrix has the given rows. -/
def ofMatrix? : List (List Int) → Option Turn
  | [[a, b, c], [d, e, f], [g, h, i]] => ofColumns? ⟨a, d, g⟩ ⟨b, e, h⟩ ⟨c, f, i⟩
  | _ => none

/-- The turn with the given matrix, whose rows have to be orthonormal with determinant one.  Rows
that only wrap around to orthonormal ones belong to no turn and count as a reflection. -/
def ofRows? (m : List (List Int)) : Except MatrixFlaw Turn :=
  if !orthonormal m then .error .notOrthogonal
  else if determinant m ≠ 1 then .error .reflection
  else match ofMatrix? m with
    | some t => .ok t
    | none => .error .reflection

/-! ### Word arithmetic -/

/-- The image of a point in word arithmetic; `none` if a coordinate does not fit a word. -/
def move (t : Turn) (p : Point) : Option Point :=
  if p.all Word.fits then some ((t.act p).map Word.wrap) else none

/-- The size of a turned box, in word arithmetic. -/
def moveSize (t : Turn) (size : Point) : Option Point :=
  (t.move size).map (Point.map fun v => v.natAbs)

/-! ### Facings -/

/-- The turn that makes a part face along a heading, by quarter turns about `x` or `y` alone. -/
def facing : Heading → Turn
  | .posX => ofQuarters 0 1 0
  | .posY => ofQuarters (-1) 0 0
  | .posZ => ofQuarters 0 0 0
  | .negX => ofQuarters 0 (-1) 0
  | .negY => ofQuarters 1 0 0
  | .negZ => ofQuarters 2 0 0

/-! ### Laws -/

/-- A turn acts on each coordinate on its own. -/
theorem act_add (t : Turn) (p q : Point) : t.act (p + q) = t.act p + t.act q := by
  obtain ⟨x, y, z, e⟩ := t
  cases x <;> cases y <;> cases e <;>
    (simp only [act, Heading.along, Point.add_def, Point.mk.injEq]; omega)

theorem act_along (t : Turn) (h : Heading) (d : Int) :
    t.act (h.along d) = (t.send h).along d := by
  obtain ⟨x, y, z, e⟩ := t
  cases x <;> cases y <;> cases e <;> cases h <;>
    simp [act, send, Heading.along, Heading.opposite, Point.add_def]

/-- **Composition acts as one turn after the other.** -/
theorem act_after (q r : Turn) (p : Point) : (q.after r).act p = q.act (r.act p) := by
  show _ = q.act (r.x.along p.x + r.y.along p.y + r.z.along p.z)
  rw [act_add, act_add, act_along, act_along, act_along]
  rfl

/-- The turn that moves nothing. -/
theorem act_identity (p : Point) : identity.act p = p := by
  simp [act, identity, Heading.along, Point.add_def]

theorem identity_after (t : Turn) : identity.after t = t := by
  obtain ⟨x, y, z, e⟩ := t
  cases x <;> cases y <;> cases e <;> rfl

/-- The inverse leads back. -/
theorem act_inverse (t : Turn) (p : Point) : t.inverse.act (t.act p) = p := by
  obtain ⟨x, y, z, e⟩ := t
  cases x <;> cases y <;> cases e <;>
    simp [act, inverse, source, Heading.along, Heading.opposite, Point.add_def]

/-- Within half the range of a word, `Turn.move` is `Turn.act`. -/
theorem move_eq (t : Turn) {p : Point}
    (hx : -9223372036854775808 < p.x ∧ p.x < 9223372036854775808)
    (hy : -9223372036854775808 < p.y ∧ p.y < 9223372036854775808)
    (hz : -9223372036854775808 < p.z ∧ p.z < 9223372036854775808) :
    t.move p = some (t.act p) := by
  have hfit : p.all Word.fits = true := by
    simp only [Point.all, Bool.and_eq_true, Word.fits_iff]
    omega
  have hwrap : ∀ v : Int, -9223372036854775808 < v → v < 9223372036854775808 →
      Word.wrap v = v ∧ Word.wrap (-v) = -v := by
    intro v h0 h1
    exact ⟨Word.wrap_of_fits (Word.fits_iff.2 (by omega)),
      Word.wrap_of_fits (Word.fits_iff.2 (by omega))⟩
  obtain ⟨hx', hnx⟩ := hwrap p.x hx.1 hx.2
  obtain ⟨hy', hny⟩ := hwrap p.y hy.1 hy.2
  obtain ⟨hz', hnz⟩ := hwrap p.z hz.1 hz.2
  rw [move, if_pos hfit]
  obtain ⟨x, y, z, e⟩ := t
  cases x <;> cases y <;> cases e <;>
    simp [act, Heading.along, Point.add_def, Point.map, hx', hnx, hy', hny, hz', hnz]

end Turn

end Breadboard
