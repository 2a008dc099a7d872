import Breadboard.Proofs.Path
import Breadboard.Proofs.Wiring.Rows

/-!
**Numbers as names.**

Circuits and sectors are often named by numbers.  Different numbers have different names, and the
name of a number has no separator, as the names of circuits and slots in a path.  So the names of
points, three numbers in a row, tell the points of a box apart.

Main results:

* `Numeral.toString_inj` — **different numbers have different names**;
* `Numeral.notMem_toString` — the name of a number has only digits;
* `Circuit.pointName_inj` — **different points of a box have different names**;
* `Circuit.getSector?_cubeSlot_of_mem` — the sector of a point of a box of units.
-/

set_option autoImplicit false
set_option relaxedAutoImplicit false

namespace Breadboard

namespace Numeral

/-- Different numbers have different names. -/
theorem toString_inj {m n : Nat} : toString m = toString n ↔ m = n := by
  constructor
  · intro h
    have hdigits : Nat.toDigits 10 m = Nat.toDigits 10 n := by
      rw [← Nat.toList_repr, ← Nat.toList_repr]
      exact congrArg String.toList h
    -- a number reads back from its digits
    rw [← Nat.ofDigitChars_ten_toDigits (n := m), hdigits, Nat.ofDigitChars_ten_toDigits]
  · rintro rfl
    rfl

/-- The names of the first numbers are different. -/
theorem nodup_names (n : Nat) : ((List.range n).map fun (i : Nat) => toString i).Nodup :=
  List.nodup_range.map fun _ _ h => toString_inj.1 h

/-- The name of a number has only digits. -/
theorem notMem_toString {c : Char} (h : c.isDigit = false) (n : Nat) :
    c ∉ (toString n).toList := by
  intro hmem
  rw [show (toString n).toList = Nat.toDigits 10 n from Nat.toList_repr] at hmem
  have hdigit := Nat.isDigit_of_mem_toDigits (by decide) (by decide) hmem
  rw [h] at hdigit
  cases hdigit

/-- The name of a number has at least one digit. -/
theorem toString_ne_empty (n : Nat) : toString n ≠ "" := by
  intro hempty
  have hdigits : Nat.toDigits 10 n = [] :=
    Nat.toList_repr.symm.trans (congrArg String.toList hempty)
  exact Nat.toDigits_ne_nil hdigits

/-- The name of a number has no separator. -/
theorem separator_notMem (n : Nat) : Path.separator ∉ (toString n).toList :=
  notMem_toString (by decide) n

end Numeral

/-- What is listed under different names is found there. -/
theorem Keyed.find?_map {α β : Type} {name : α → String} (f : α → β) {l : List α}
    (hnames : (l.map name).Nodup) {a : α} (ha : a ∈ l) :
    Keyed.find? (name a) (l.map fun b => (name b, f b)) = some (f a) := by
  induction l with
  | nil => cases ha
  | cons b rest ih =>
      rw [List.map_cons] at hnames
      obtain ⟨hnew, hrest⟩ := List.nodup_cons.1 hnames
      rw [List.map_cons, Keyed.find?_cons]
      rcases List.mem_cons.1 ha with rfl | ha
      · rw [if_pos rfl]
      · have hne : name b ≠ name a := by
          intro e
          rw [e] at hnew
          exact hnew (List.mem_map_of_mem ha)
        rw [if_neg hne]
        exact ih hrest ha

namespace Circuit

/-- The name of a place of a row. -/
theorem pointName_row (x : Nat) : pointName ⟨x, 0, 0⟩ = toString x ++ "_0_0" := by
  have hx : toString (x : Int) = toString x := rfl
  have hzero : toString (0 : Int) = "0" := rfl
  rw [pointName, hx, hzero, String.append_assoc, String.append_assoc, String.append_assoc]
  rfl

/-- The name of a point without negative coordinates, character by character. -/
theorem toList_pointName (x y z : Nat) :
    (pointName ⟨x, y, z⟩).toList = (toString x).toList
      ++ '_' :: ((toString y).toList ++ '_' :: (toString z).toList) := by
  have hname (n : Nat) : toString (n : Int) = toString n := rfl
  simp only [pointName, hname, String.toList_append, List.append_assoc]
  rfl

/-- A text is cut at a mark that comes first on both sides. -/
theorem eq_of_append_cons_eq {c : Char} {first first' rest rest' : List Char} (h : c ∉ first)
    (h' : c ∉ first') (e : first ++ c :: rest = first' ++ c :: rest') :
    first = first' ∧ rest = rest' := by
  induction first generalizing first' with
  | nil =>
      cases first' with
      | nil => exact ⟨rfl, (List.cons.inj e).2⟩
      | cons d _ => exact absurd ((List.cons.inj e).1 ▸ List.mem_cons_self) h'
  | cons d first ih =>
      cases first' with
      | nil => exact absurd ((List.cons.inj e).1 ▸ List.mem_cons_self) h
      | cons d' first' =>
          obtain ⟨rfl, htail⟩ := List.cons.inj e
          obtain ⟨rfl, rfl⟩ := ih (fun hc => h (List.mem_cons_of_mem _ hc))
            (fun hc => h' (List.mem_cons_of_mem _ hc)) htail
          exact ⟨rfl, rfl⟩

/-- **Different points have different names**, if their coordinates are not negative. -/
theorem pointName_inj {p q : Point} (hp : .origin ≤ p) (hq : .origin ≤ q) :
    pointName p = pointName q ↔ p = q := by
  constructor
  · intro h
    obtain ⟨x, y, z⟩ := p
    obtain ⟨x', y', z'⟩ := q
    obtain ⟨⟨x, rfl⟩, ⟨y, rfl⟩, z, rfl⟩ := hp.imp Int.eq_ofNat_of_zero_le
      (And.imp Int.eq_ofNat_of_zero_le Int.eq_ofNat_of_zero_le)
    obtain ⟨⟨x', rfl⟩, ⟨y', rfl⟩, z', rfl⟩ := hq.imp Int.eq_ofNat_of_zero_le
      (And.imp Int.eq_ofNat_of_zero_le Int.eq_ofNat_of_zero_le)
    have hlist := congrArg String.toList h
    have hline (n : Nat) : '_' ∉ (toString n).toList := Numeral.notMem_toString (by decide) n
    -- the names of the numbers end at the lines between them
    rw [toList_pointName, toList_pointName] at hlist
    obtain ⟨hx, hlist⟩ := eq_of_append_cons_eq (hline x) (hline x') hlist
    obtain ⟨hy, hz⟩ := eq_of_append_cons_eq (hline y) (hline y') hlist
    rw [Numeral.toString_inj.1 (String.toList_inj.1 hx),
      Numeral.toString_inj.1 (String.toList_inj.1 hy),
      Numeral.toString_inj.1 (String.toList_inj.1 hz)]
  · rintro rfl
    rfl

/-- No point has the empty name. -/
theorem pointName_ne_wholeSector (p : Point) : pointName p ≠ wholeSector := by
  intro e
  have hlist := congrArg String.toList e
  simp only [pointName, String.toList_append, List.append_assoc] at hlist
  exact absurd (List.append_eq_nil_iff.1 (List.append_eq_nil_iff.1 hlist).2).1 (by decide)

/-- The points of a box have different names. -/
theorem nodup_pointName_box (size : Point) : (size.box.map pointName).Nodup := by
  refine List.Nodup.map_on (fun p hp q hq h => ?_) (Point.nodup_box size)
  have hinside (r : Point) (hr : r ∈ size.box) : Point.origin ≤ r := by
    obtain ⟨⟨hx, _⟩, ⟨hy, _⟩, hz, _⟩ := Point.isInside_iff.1 (Point.mem_box.1 hr)
    exact ⟨hx, hy, hz⟩
  exact (pointName_inj (hinside p hp) (hinside q hq)).1 h

/-- The sector of a point of a box of units. -/
theorem getSector?_cubeSlot_of_mem {size : Size} {p : Point} (hp : p ∈ size.extents.box)
    (kind : String) :
    (cubeSlot size kind).getSector? (pointName p) = some ⟨p, .one, "bit"⟩ := by
  rw [Slot.getSector?, if_neg (pointName_ne_wholeSector p), cubeSlot]
  exact Keyed.find?_map (fun p => (⟨p, .one, "bit"⟩ : Sector)) (nodup_pointName_box _) hp

/-- The sector of a place of a row of units. -/
theorem getSector?_cubeSlot {n x : Nat} (hx : x < n) (kind : String) :
    (cubeSlot (SlotPlan.wordSize n) kind).getSector? (pointName ⟨x, 0, 0⟩)
      = some ⟨⟨x, 0, 0⟩, .one, "bit"⟩ :=
  getSector?_cubeSlot_of_mem (Point.mem_box.2 (Point.isInside_row_iff.2 hx)) kind

end Circuit

end Breadboard
