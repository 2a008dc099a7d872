import Breadboard.Grid.Reading
import Mathlib.LinearAlgebra.Matrix.Determinant.Basic
import Mathlib.LinearAlgebra.Matrix.NonsingularInverse

/-!
**The matrices of turns.**

A turn is read from a matrix by two tests: in word arithmetic the product of the matrix with its
transpose has to be the identity, and the determinant has to be one.  As long as the entries are not
larger than half a word, no product of rows can wrap around to that of orthonormal rows.  So the
tests pass only what they are meant to pass: the signed permutations that keep the space as it is,
which are the matrices of the twenty-four turns.

Main definitions:

* `Turn.matrix` — the matrix of a turn, whose columns are the images of the axes;
* `Turn.IsSignedPermutation` — a single entry of each row and of each column is not zero, and it is
  one or minus one;
* `Turn.document` — a matrix written as a document.

Main results:

* `Turn.orthonormal_iff` — for entries up to half a word, **the test in word arithmetic is exact**;
* `Turn.mul_transpose_iff` — the integer matrices with orthonormal rows are the signed permutations;
* `Turn.exists_matrix_eq` — those of determinant one are the matrices of turns;
* `Turn.matrixTurn_document` — what is read from a matrix;
* `Turn.matrix_after`, `Turn.matrix_inverse` — composition is the product, and the turn back is the
  transpose;
* `Turn.matrices_of_turns` — **exactly the matrices of turns are read as turns**.
-/

set_option autoImplicit false
set_option relaxedAutoImplicit false

namespace Breadboard

/-! ### Sums of products in word arithmetic -/

/-- A number that is not too large for three products of half words comes back as zero or as one
only if it is that number. -/
theorem Word.wrap_eq_iff {v u : Int} (hv : |v| ≤ 3 * 2 ^ 62) (hu : u = 0 ∨ u = 1) :
    wrap v = u ↔ v = u := by
  rw [abs_le] at hv
  rw [wrap, Int.bmod_def]
  split <;> omega

/-! ### Headings -/

namespace Heading

theorem mem_all (h : Heading) : h ∈ all := by
  cases h <;> decide

/-- A heading is found by its unit vector only. -/
theorem ofVector?_eq_some_iff {v : Point} {h : Heading} : ofVector? v = some h ↔ h.vector = v := by
  constructor
  · intro hfound
    have hequal := List.find?_some hfound
    exact beq_iff_eq.1 hequal
  · rintro rfl
    exact ofVector?_vector h

/-- A walk along a heading is a multiple of the unit vector. -/
theorem along_eq (h : Heading) (d : Int) :
    h.along d = ⟨h.vector.x * d, h.vector.y * d, h.vector.z * d⟩ := by
  cases h <;> simp [along, vector]

end Heading

namespace Turn

open Matrix

/-! ### Matrices and their rows -/

/-- The matrix of a turn; its columns are the images of the axes. -/
def matrix (t : Turn) : Matrix (Fin 3) (Fin 3) Int :=
  !![t.x.vector.x, t.y.vector.x, t.z.vector.x;
     t.x.vector.y, t.y.vector.y, t.z.vector.y;
     t.x.vector.z, t.y.vector.z, t.z.vector.z]

/-- The rows of a matrix. -/
def rowsOf (m : Matrix (Fin 3) (Fin 3) Int) : List (List Int) :=
  List.ofFn fun i => List.ofFn (m i)

variable {m n : Matrix (Fin 3) (Fin 3) Int}

theorem rowsOf_eq (m : Matrix (Fin 3) (Fin 3) Int) :
    rowsOf m = [[m 0 0, m 0 1, m 0 2], [m 1 0, m 1 1, m 1 2], [m 2 0, m 2 1, m 2 2]] := rfl

theorem rowsOf_matrix (t : Turn) : rowsOf t.matrix = t.rows := rfl

theorem rowsOf_inj : rowsOf m = rowsOf n ↔ m = n := by
  constructor
  · intro h
    have hrows := List.ofFn_injective h
    ext i j
    exact congrFun (List.ofFn_injective (congrFun hrows i)) j
  · rintro rfl
    rfl

/-- A turn moves a point by its matrix. -/
theorem act_eq_mulVec (t : Turn) (p : Point) (i : Fin 3) :
    ![(t.act p).x, (t.act p).y, (t.act p).z] i = (t.matrix *ᵥ ![p.x, p.y, p.z]) i := by
  fin_cases i <;>
    simp [act, Heading.along_eq, matrix, Matrix.mulVec, dotProduct, Fin.sum_univ_three]

/-- **Composition is the product of the matrices.** -/
theorem matrix_after (q r : Turn) : (q.after r).matrix = q.matrix * r.matrix := by
  -- the columns of the composition are the images of those of the first turn
  have hsend (h : Heading) : (q.send h).vector = q.act h.vector := (q.act_along h 1).symm
  ext i j
  fin_cases i <;> fin_cases j <;>
    simp [matrix, after, hsend, act, Heading.along_eq, Matrix.mul_apply, Fin.sum_univ_three]

/-- The turn back has the transposed matrix. -/
theorem matrix_inverse (t : Turn) : t.inverse.matrix = t.matrixᵀ := by
  obtain ⟨x, y, z, e⟩ := t
  cases x <;> cases y <;> cases e <;> decide

/-! ### Orthonormal rows -/

/-- A single entry of each row and of each column is not zero, and it is one or minus one. -/
def IsSignedPermutation (m : Matrix (Fin 3) (Fin 3) Int) : Prop :=
  ∃ (axis : Equiv.Perm (Fin 3)) (sign : Fin 3 → ℤˣ),
    ∀ i j, m i j = if axis i = j then (sign i : Int) else 0

/-- An integer vector of length one has a single entry that is not zero. -/
theorem exists_unit {v : Fin 3 → Int} (h : v ⬝ᵥ v = 1) :
    ∃ (axis : Fin 3) (sign : ℤˣ), ∀ j, v j = if axis = j then (sign : Int) else 0 := by
  obtain ⟨axis, haxis⟩ : ∃ axis, v axis ≠ 0 := by
    by_contra hno
    push Not at hno
    simp [dotProduct, hno] at h
  have hsum : v axis * v axis + ∑ j ∈ Finset.univ.erase axis, v j * v j = 1 := by
    rw [Finset.add_sum_erase _ (fun j => v j * v j) (Finset.mem_univ axis)]
    exact h
  have hsquare : ∀ j ∈ Finset.univ.erase axis, 0 ≤ v j * v j := fun j _ => mul_self_nonneg (v j)
  have hpos : 0 < v axis * v axis := mul_self_pos.2 haxis
  have hnonneg := Finset.sum_nonneg hsquare
  -- the square of this entry is at least one, so nothing is left for the others
  have hone : v axis * v axis = 1 := by omega
  have hothers := (Finset.sum_eq_zero_iff_of_nonneg hsquare).1 (by omega)
  refine ⟨axis, ⟨v axis, v axis, hone, hone⟩, fun j => ?_⟩
  split
  · rename_i hj
    exact congrArg v hj.symm
  · rename_i hj
    exact mul_self_eq_zero.1
      (hothers j (Finset.mem_erase.2 ⟨Ne.symm hj, Finset.mem_univ j⟩))

/-- **The integer matrices with orthonormal rows are the signed permutations.** -/
theorem mul_transpose_iff : m * mᵀ = 1 ↔ IsSignedPermutation m := by
  constructor
  · intro h
    have hentry (i k : Fin 3) : m i ⬝ᵥ m k = (1 : Matrix (Fin 3) (Fin 3) Int) i k := by
      rw [← h]
      rfl
    have hunit (i : Fin 3) := exists_unit ((hentry i i).trans (Matrix.one_apply_eq i))
    choose axis sign hrow using hunit
    -- rows along the same axis are not orthogonal
    have hinj : Function.Injective axis := by
      intro i k hik
      by_contra hne
      have hzero := (hentry i k).trans (Matrix.one_apply_ne hne)
      simp [dotProduct, hrow, hik] at hzero
    exact ⟨Equiv.ofBijective axis (Finite.injective_iff_bijective.1 hinj), sign, hrow⟩
  · rintro ⟨axis, sign, hrow⟩
    ext i k
    rw [Matrix.mul_apply, Matrix.one_apply]
    simp only [Matrix.transpose_apply, hrow, ite_mul, zero_mul, mul_ite, mul_zero,
      Finset.sum_ite_eq, Finset.mem_univ, if_true, EmbeddingLike.apply_eq_iff_eq]
    by_cases hik : i = k
    · subst hik
      simp
    · simp [hik]

/-- A column of a matrix with orthonormal rows is the unit vector of a heading. -/
theorem exists_vector_column (h : m * mᵀ = 1) (j : Fin 3) :
    ∃ g : Heading, g.vector = ⟨m 0 j, m 1 j, m 2 j⟩ := by
  have hcolumns : mᵀ * m = 1 := mul_eq_one_comm.1 h
  have hlength : mᵀ j ⬝ᵥ mᵀ j = 1 := by
    have hentry : (mᵀ * m) j j = 1 := by rw [hcolumns, Matrix.one_apply_eq]
    exact hentry
  obtain ⟨axis, sign, hcolumn⟩ := exists_unit hlength
  have hrow (i : Fin 3) : m i j = if axis = i then (sign : Int) else 0 := hcolumn i
  rw [hrow 0, hrow 1, hrow 2]
  rcases Int.units_eq_one_or sign with rfl | rfl <;> fin_cases axis
  · exact ⟨.posX, rfl⟩
  · exact ⟨.posY, rfl⟩
  · exact ⟨.posZ, rfl⟩
  · exact ⟨.negX, rfl⟩
  · exact ⟨.negY, rfl⟩
  · exact ⟨.negZ, rfl⟩

/-! ### The tests of a matrix -/

theorem determinant_rowsOf (m : Matrix (Fin 3) (Fin 3) Int) : determinant (rowsOf m) = m.det := by
  rw [Matrix.det_fin_three, rowsOf_eq, determinant]
  ring

theorem wordDot_eq (a b c d e f : Int) :
    wordDot [a, b, c] [d, e, f] = Word.wrap (a * d + b * e + c * f) := by
  simp only [wordDot, List.zip_cons_cons, List.zip_nil_right, List.map_cons, List.map_nil,
    List.foldl_cons, List.foldl_nil, Word.wrap, Int.bmod_add_bmod, Int.zero_add]

theorem orthonormal_rowsOf (m : Matrix (Fin 3) (Fin 3) Int) : orthonormal (rowsOf m) = true ↔
    ∀ i k, Word.wrap ((m * mᵀ) i k) = (1 : Matrix (Fin 3) (Fin 3) Int) i k := by
  simp [rowsOf_eq, orthonormal, List.zipIdx, wordDot_eq, Fin.forall_fin_succ, Matrix.mul_apply,
    Fin.sum_univ_three, Matrix.one_apply]

/-- No entry is larger than half a word. -/
def IsHalfWord (m : Matrix (Fin 3) (Fin 3) Int) : Prop := ∀ i j, |m i j| ≤ 2 ^ 31

/-- The product of two rows of half words cannot wrap around twice. -/
theorem IsHalfWord.abs_mul_transpose_le (h : IsHalfWord m) (i k : Fin 3) :
    |(m * mᵀ) i k| ≤ 3 * 2 ^ 62 := by
  have hterm (j : Fin 3) : |m i j * m k j| ≤ 2 ^ 62 := by
    rw [abs_mul]
    exact mul_le_mul (h i j) (h k j) (abs_nonneg _) (by norm_num)
  rw [Matrix.mul_apply, Fin.sum_univ_three]
  simp only [Matrix.transpose_apply]
  have h0 := hterm 0
  have h1 := hterm 1
  have h2 := hterm 2
  rw [abs_le] at h0 h1 h2 ⊢
  omega

/-- **The test in word arithmetic is exact** for entries up to half a word. -/
theorem orthonormal_iff (h : IsHalfWord m) : orthonormal (rowsOf m) = true ↔ m * mᵀ = 1 := by
  have hentry (i k : Fin 3) : Word.wrap ((m * mᵀ) i k) = (1 : Matrix (Fin 3) (Fin 3) Int) i k
      ↔ (m * mᵀ) i k = (1 : Matrix (Fin 3) (Fin 3) Int) i k := by
    refine Word.wrap_eq_iff (h.abs_mul_transpose_le i k) ?_
    rw [Matrix.one_apply]
    split
    · exact .inr rfl
    · exact .inl rfl
  rw [orthonormal_rowsOf, ← Matrix.ext_iff]
  exact forall_congr' fun i => forall_congr' fun k => hentry i k

/-! ### The turns among the matrices -/

theorem mem_all (t : Turn) : t ∈ all := by
  obtain ⟨x, y, z, e⟩ := t
  cases x <;> cases y <;> cases e <;> decide

/-- Every turn is reached by quarter turns. -/
theorem exists_ofQuarters (t : Turn) : ∃ x y z : Int, ofQuarters x y z = t := by
  have hmem := t.mem_all
  simp only [all, List.mem_eraseDups, List.mem_flatMap, List.mem_map] at hmem
  obtain ⟨i, _, j, _, k, _, h⟩ := hmem
  exact ⟨_, _, _, h⟩

/-- Three headings whose unit vectors have determinant one are right-handed. -/
theorem cross_of_determinant : ∀ x ∈ Heading.all, ∀ y ∈ Heading.all, ∀ z ∈ Heading.all,
    determinant [[x.vector.x, y.vector.x, z.vector.x], [x.vector.y, y.vector.y, z.vector.y],
      [x.vector.z, y.vector.z, z.vector.z]] = 1 → x.cross y = some z := by
  decide

theorem det_matrix (t : Turn) : t.matrix.det = 1 := by
  rw [← determinant_rowsOf, rowsOf_matrix]
  obtain ⟨x, y, z, e⟩ := t
  cases x <;> cases y <;> cases e <;> decide

theorem matrix_mul_transpose (t : Turn) : t.matrix * t.matrixᵀ = 1 := by
  obtain ⟨x, y, z, e⟩ := t
  cases x <;> cases y <;> cases e <;> decide

/-- **The matrices of turns are those with orthonormal rows and determinant one.** -/
theorem exists_matrix_eq : (∃ t : Turn, t.matrix = m) ↔ m * mᵀ = 1 ∧ m.det = 1 := by
  constructor
  · rintro ⟨t, rfl⟩
    exact ⟨t.matrix_mul_transpose, t.det_matrix⟩
  · rintro ⟨horthonormal, hdet⟩
    obtain ⟨x, hx⟩ := exists_vector_column horthonormal 0
    obtain ⟨y, hy⟩ := exists_vector_column horthonormal 1
    obtain ⟨z, hz⟩ := exists_vector_column horthonormal 2
    have hhanded : x.cross y = some z := by
      refine cross_of_determinant x x.mem_all y y.mem_all z z.mem_all ?_
      rw [hx, hy, hz, ← hdet, ← determinant_rowsOf, rowsOf_eq]
    refine ⟨⟨x, y, z, hhanded⟩, rowsOf_inj.1 ?_⟩
    rw [rowsOf_matrix, rows, hx, hy, hz, rowsOf_eq]

theorem isHalfWord_matrix (t : Turn) : IsHalfWord t.matrix := by
  unfold IsHalfWord
  obtain ⟨x, y, z, e⟩ := t
  cases x <;> cases y <;> cases e <;> decide

/-- A turn is built from the columns of its matrix only. -/
theorem ofMatrix?_eq_some_iff {t : Turn} : ofMatrix? (rowsOf m) = some t ↔ t.matrix = m := by
  have hcolumns : ofMatrix? (rowsOf m)
      = ofColumns? ⟨m 0 0, m 1 0, m 2 0⟩ ⟨m 0 1, m 1 1, m 2 1⟩ ⟨m 0 2, m 1 2, m 2 2⟩ := rfl
  rw [hcolumns]
  constructor
  · intro h
    simp only [ofColumns?, Option.bind_eq_bind, Option.bind_eq_some_iff] at h
    obtain ⟨x, hx, y, hy, z, hz, h⟩ := h
    rw [Heading.ofVector?_eq_some_iff] at hx hy hz
    split at h
    · cases h
      rw [← rowsOf_inj, rowsOf_matrix, rows, hx, hy, hz, rowsOf_eq]
    · cases h
  · rintro rfl
    show ofColumns? t.x.vector t.y.vector t.z.vector = some t
    simp [ofColumns?, Heading.ofVector?_vector, t.handed]

/-- The matrix of a turn passes the tests, and the turn is built. -/
theorem ofRows?_matrix (t : Turn) : ofRows? (rowsOf t.matrix) = .ok t := by
  have horthonormal := (orthonormal_iff t.isHalfWord_matrix).2 t.matrix_mul_transpose
  have hdet : determinant (rowsOf t.matrix) = 1 := by rw [determinant_rowsOf, t.det_matrix]
  have hbuilt : ofMatrix? (rowsOf t.matrix) = some t := ofMatrix?_eq_some_iff.2 rfl
  simp [ofRows?, horthonormal, hdet, hbuilt]

/-- Only the matrix of a turn is read as the turn. -/
theorem ofRows?_eq_ok_iff {t : Turn} : ofRows? (rowsOf m) = .ok t ↔ t.matrix = m := by
  constructor
  · intro h
    unfold ofRows? at h
    split at h
    · cases h
    · split at h
      · cases h
      · split at h
        · rename_i s hbuilt
          cases h
          exact ofMatrix?_eq_some_iff.1 hbuilt
        · cases h
  · rintro rfl
    exact t.ofRows?_matrix

/-- Rows that are not orthonormal are reported as such. -/
theorem ofRows?_of_mul_transpose_ne (h : IsHalfWord m) (hno : m * mᵀ ≠ 1) :
    ofRows? (rowsOf m) = .error .notOrthogonal := by
  rw [ne_eq, ← orthonormal_iff h] at hno
  simp [ofRows?, hno]

/-- Orthonormal rows of another determinant are reported as a reflection. -/
theorem ofRows?_of_det_ne (h : IsHalfWord m) (horthonormal : m * mᵀ = 1) (hdet : m.det ≠ 1) :
    ofRows? (rowsOf m) = .error .reflection := by
  rw [← orthonormal_iff h] at horthonormal
  rw [← determinant_rowsOf] at hdet
  simp [ofRows?, horthonormal, hdet]

/-! ### Reading a matrix -/

/-- A matrix written as a document, row by row. -/
def document (m : Matrix (Fin 3) (Fin 3) Int) : Json :=
  .arr (List.ofFn fun i => .arr (List.ofFn fun j => .int (m i j)))

/-- The text of a matrix inside a message. -/
def matrixText (m : Matrix (Fin 3) (Fin 3) Int) : String :=
  "[" ++ ", ".intercalate ((rowsOf m).map displayInts) ++ "]"

/-- What is read from a matrix of words. -/
theorem matrixTurn_document (h : ∀ i j, Word.fits (m i j) = true) :
    Reading.matrixTurn (document m) = match ofRows? (rowsOf m) with
      | .ok t => .ok t
      | .error .notOrthogonal => .error (.notOrthogonal (matrixText m))
      | .error .reflection => .error (.reflection (matrixText m)) := by
  have hword (i j : Fin 3) : Reading.word (.int (m i j)) = .ok (m i j) := by
    rw [Reading.word, Reading.integer, Fault.ok_bind, if_pos (h i j)]
    rfl
  have harray : Reading.evenArray (document m)
      = .ok (.list (List.ofFn fun i => .list (List.ofFn fun j => .word (m i j)))) := by
    have hshape : (Reading.outline (document m)).hasShape (Reading.outline (document m)).shape
        = true := rfl
    simp only [Reading.evenArray, if_pos hshape]
    simp [document, List.ofFn_succ, Reading.wordArray, Reading.wordArrays, hword]
  have hrows : Reading.WordArray.rows?
      (.list (List.ofFn fun i => .list (List.ofFn fun j => .word (m i j)))) = some (rowsOf m) := by
    simp [Reading.WordArray.rows?, Reading.WordArray.row?, List.ofFn_succ, rowsOf]
  have htext : Reading.WordArray.display
      (.list (List.ofFn fun i => .list (List.ofFn fun j => .word (m i j)))) = matrixText m := by
    simp [Reading.WordArray.display, Reading.WordArray.displayAll, List.ofFn_succ, rowsOf,
      matrixText, displayInts]
  rw [Reading.matrixTurn, harray, Fault.ok_bind, hrows]
  simp only [htext]
  cases ofRows? (rowsOf m) with
  | ok t => rfl
  | error flaw => cases flaw <;> rfl

theorem IsHalfWord.fits (h : IsHalfWord m) (i j : Fin 3) : Word.fits (m i j) = true := by
  have hentry := abs_le.1 (h i j)
  rw [Word.fits_iff]
  omega

/-- The matrix of a turn is read as the turn. -/
theorem matrixTurn_matrix (t : Turn) : Reading.matrixTurn (document t.matrix) = .ok t := by
  rw [matrixTurn_document t.isHalfWord_matrix.fits, t.ofRows?_matrix]

/-- What is read as a turn is the matrix of the turn. -/
theorem matrixTurn_eq_ok_iff (h : IsHalfWord m) {t : Turn} :
    Reading.matrixTurn (document m) = .ok t ↔ t.matrix = m := by
  constructor
  · intro hread
    rw [matrixTurn_document h.fits] at hread
    split at hread
    · rename_i s hrows
      cases hread
      exact ofRows?_eq_ok_iff.1 hrows
    · cases hread
    · cases hread
  · rintro rfl
    exact t.matrixTurn_matrix

/-- What is not read as a turn is told by its kind: its rows are not orthonormal, or it turns the
space inside out. -/
theorem matrixTurn_eq_error (h : IsHalfWord m) (hno : ¬ ∃ t : Turn, t.matrix = m) :
    Reading.matrixTurn (document m) = .error (.notOrthogonal (matrixText m))
        ∧ ¬ IsSignedPermutation m
      ∨ Reading.matrixTurn (document m) = .error (.reflection (matrixText m))
        ∧ IsSignedPermutation m ∧ m.det ≠ 1 := by
  rw [exists_matrix_eq, not_and] at hno
  rw [matrixTurn_document h.fits, ← mul_transpose_iff]
  by_cases horthonormal : m * mᵀ = 1
  · have hdet := hno horthonormal
    rw [ofRows?_of_det_ne h horthonormal hdet]
    exact .inr ⟨rfl, horthonormal, hdet⟩
  · rw [ofRows?_of_mul_transpose_ne h horthonormal]
    exact .inl ⟨rfl, horthonormal⟩

/-- A turn exchanges coordinates and their signs, so it keeps a bound on their amounts. -/
theorem abs_act_le (t : Turn) {p : Point} {bound : Int} (h : ∀ v ∈ p.toList, |v| ≤ bound) :
    ∀ v ∈ (t.act p).toList, |v| ≤ bound := by
  obtain ⟨x, y, z, e⟩ := t
  simp only [Point.toList, List.mem_cons, List.not_mem_nil, or_false, forall_eq_or_imp,
    forall_eq] at h ⊢
  cases x <;> cases y <;> cases e <;>
    simp [act, Heading.along, Point.add_def, h]

/-- A point whose coordinates have a negative in word arithmetic is moved exactly. -/
theorem moved_of_abs_le (t : Turn) {p : Point} (h : ∀ v ∈ p.toList, |v| ≤ 2 ^ 63 - 1) :
    Reading.moved t p = .ok (t.act p) := by
  simp only [Point.toList, List.mem_cons, List.not_mem_nil, or_false, forall_eq_or_imp,
    forall_eq, abs_le] at h
  rw [Reading.moved, move_eq t (by omega) (by omega) (by omega)]

/-- **Exactly the matrices of turns are read as turns.**  There are twenty-four.  Of the integer
matrices with entries up to half a word, those are read that are signed permutations of determinant
one, which are the matrices reached by quarter turns, and so those of all turns; the two tests of
the rows alone decide this.  Of the others it is told whether their rows are not orthonormal or they
turn the space inside out.  What is read is closed under products and transposes, by which turns are
composed and turned back, and turns move all points that have a negative as their matrices do. -/
theorem matrices_of_turns :
    (all.length = 24 ∧ all.Nodup) ∧
    (∀ m : Matrix (Fin 3) (Fin 3) Int, IsHalfWord m →
      ((∃ t, Reading.matrixTurn (document m) = .ok t) ↔ IsSignedPermutation m ∧ m.det = 1) ∧
      ((∃ t, Reading.matrixTurn (document m) = .ok t)
        ↔ ∃ x y z : Int, (ofQuarters x y z).matrix = m) ∧
      ((∃ t, Reading.matrixTurn (document m) = .ok t) ↔ ∃ t ∈ all, t.matrix = m) ∧
      ((∃ t, Reading.matrixTurn (document m) = .ok t)
        ↔ orthonormal (rowsOf m) = true ∧ determinant (rowsOf m) = 1) ∧
      (∀ t, Reading.matrixTurn (document m) = .ok t → t.matrix = m) ∧
      ((¬ ∃ t, Reading.matrixTurn (document m) = .ok t) →
        Reading.matrixTurn (document m) = .error (.notOrthogonal (matrixText m))
            ∧ ¬ IsSignedPermutation m
          ∨ Reading.matrixTurn (document m) = .error (.reflection (matrixText m))
            ∧ IsSignedPermutation m ∧ m.det ≠ 1)) ∧
    (∀ m n : Matrix (Fin 3) (Fin 3) Int, IsHalfWord m → IsHalfWord n → ∀ q r : Turn,
      Reading.matrixTurn (document m) = .ok q → Reading.matrixTurn (document n) = .ok r →
      Reading.matrixTurn (document (m * n)) = .ok (q.after r)
        ∧ Reading.matrixTurn (document mᵀ) = .ok q.inverse) ∧
    ∀ (q r : Turn) (p : Point), (∀ v ∈ p.toList, |v| ≤ 2 ^ 63 - 1) →
      ∃ s, (Reading.moved r p >>= Reading.moved q) = .ok s
        ∧ Reading.moved (q.after r) p = .ok s
        ∧ ![s.x, s.y, s.z] = (q.matrix * r.matrix) *ᵥ ![p.x, p.y, p.z] := by
  refine ⟨by decide, fun m h => ?_, fun m n hm hn q r hq hr => ?_, fun q r p hp => ?_⟩
  · have hread : (∃ t, Reading.matrixTurn (document m) = .ok t) ↔ ∃ t : Turn, t.matrix = m :=
      exists_congr fun t => matrixTurn_eq_ok_iff h
    rw [hread]
    refine ⟨?_, ?_, ?_, ?_, fun t => (matrixTurn_eq_ok_iff h).1, matrixTurn_eq_error h⟩
    · rw [exists_matrix_eq, mul_transpose_iff]
    · constructor
      · rintro ⟨t, ht⟩
        obtain ⟨x, y, z, hquarters⟩ := t.exists_ofQuarters
        exact ⟨x, y, z, by rw [hquarters, ht]⟩
      · rintro ⟨x, y, z, ht⟩
        exact ⟨_, ht⟩
    · exact exists_congr fun t => ⟨fun ht => ⟨t.mem_all, ht⟩, And.right⟩
    · rw [exists_matrix_eq, orthonormal_iff h, determinant_rowsOf]
  · obtain rfl := (matrixTurn_eq_ok_iff hm).1 hq
    obtain rfl := (matrixTurn_eq_ok_iff hn).1 hr
    rw [← matrix_after, ← matrix_inverse]
    exact ⟨matrixTurn_matrix _, matrixTurn_matrix _⟩
  · refine ⟨(q.after r).act p, ?_, moved_of_abs_le _ hp, ?_⟩
    · rw [moved_of_abs_le r hp, Fault.ok_bind, moved_of_abs_le q (r.abs_act_le hp), act_after]
    · rw [← matrix_after]
      exact funext ((q.after r).act_eq_mulVec p)

/-- A row of entries of half a word, the sum of whose squares is too large for a word. -/
def steep : Matrix (Fin 3) (Fin 3) Int := !![2 ^ 31, 2 ^ 31, -2 ^ 31; 0, 1, 0; 0, 0, 1]

/-- The mirror image along the first axis. -/
def mirror : Matrix (Fin 3) (Fin 3) Int := !![-1, 0, 0; 0, 1, 0; 0, 0, 1]

theorem matrices_of_turns_steep :
    (IsHalfWord steep ∧ ¬ ∃ t, Reading.matrixTurn (document steep) = .ok t) ∧
    (IsHalfWord mirror
      ∧ Reading.matrixTurn (document mirror) = .error (.reflection (matrixText mirror))
      ∧ matrixText mirror = "[[-1, 0, 0], [0, 1, 0], [0, 0, 1]]") ∧
    (IsHalfWord quarterX.matrix ∧ IsHalfWord quarterZ.matrix
      ∧ Reading.matrixTurn (document quarterX.matrix) = .ok quarterX
      ∧ Reading.matrixTurn (document quarterZ.matrix) = .ok quarterZ
      ∧ Reading.matrixTurn (document (quarterX.matrix * quarterZ.matrix))
        = .ok (quarterX.after quarterZ)) ∧
    (∀ v ∈ (⟨2 ^ 63 - 1, -(2 ^ 63 - 1), 5⟩ : Point).toList, |v| ≤ 2 ^ 63 - 1)
      ∧ ∃ s, (Reading.moved quarterZ ⟨2 ^ 63 - 1, -(2 ^ 63 - 1), 5⟩ >>= Reading.moved quarterX)
        = .ok s := by
  have hsteep : IsHalfWord steep := by unfold IsHalfWord; decide
  have hmirror : IsHalfWord mirror := by unfold IsHalfWord; decide
  have hx : Reading.matrixTurn (document quarterX.matrix) = .ok quarterX := matrixTurn_matrix _
  have hz : Reading.matrixTurn (document quarterZ.matrix) = .ok quarterZ := matrixTurn_matrix _
  have hfar : ∀ v ∈ (⟨2 ^ 63 - 1, -(2 ^ 63 - 1), 5⟩ : Point).toList, |v| ≤ 2 ^ 63 - 1 := by decide
  obtain ⟨_, hread, hclosed, hmoved⟩ := matrices_of_turns
  obtain ⟨_, _, _, hsteepTests, _, _⟩ := hread steep hsteep
  obtain ⟨hmirrorRead, _, _, _, _, hmirrorFails⟩ := hread mirror hmirror
  have hreflection : Reading.matrixTurn (document mirror)
      = .error (.reflection (matrixText mirror)) := by
    have hdet : mirror.det ≠ 1 := by rw [← determinant_rowsOf]; decide
    rcases hmirrorFails fun hsome => hdet (hmirrorRead.1 hsome).2 with ⟨_, hno⟩ | ⟨hfails, _⟩
    · exact absurd (mul_transpose_iff.1 (by decide)) hno
    · exact hfails
  obtain ⟨s, hs, _⟩ := hmoved quarterX quarterZ _ hfar
  exact ⟨⟨hsteep, fun hsome => absurd (hsteepTests.1 hsome).1 (by decide)⟩,
    ⟨hmirror, hreflection, by decide⟩,
    ⟨isHalfWord_matrix _, isHalfWord_matrix _, hx, hz,
      (hclosed _ _ (isHalfWord_matrix _) (isHalfWord_matrix _) _ _ hx hz).1⟩, hfar, s, hs⟩

end Turn

end Breadboard
