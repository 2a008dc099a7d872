import Breadboard.Proofs.Grid.Box
import Breadboard.Proofs.Grid.Storage
import Mathlib.Data.Set.Function

/-!
**The layout of arrays.**

An array is given as a flat list, in which `x` runs fastest, or as nested lists, in which `z` is
outermost, and it is stored and gone through with `x` outermost.  The three orders are tied together
by the place of a point in the flat list: it is a bijection from the points of the box to the
places, so putting the values at their points one by one leaves none out and overwrites none, and
nested lists whose lengths agree are joined to that very list.

Main definitions:

* `Dense.Rectangular` — nested lists whose lengths agree.

Main results:

* `Dense.bijOn_flatIndex` — **the places of the points are all places of the list**;
* `Dense.get?_scatter` — **a scattered value is found at the point of its place**;
* `Dense.array_eq_ok_iff` — when a flat list becomes an array, and which;
* `Dense.ofNested_eq_ok_iff` — when nested lists become an array, and which;
* `Dense.get?_ofNested` — **the value at a point is found in the nested lists**;
* `Dense.array_layout` — the layout of arrays.
-/

set_option autoImplicit false
set_option relaxedAutoImplicit false

namespace Breadboard

namespace Dense

variable {α : Type}

/-! ### Places and points -/

/-- A point and its place determine each other. -/
theorem invOn_flatIndex {size : Point} (hsize : size.isSize = true) :
    Set.InvOn (pointAt size) (flatIndex size) {p | p.isInside size = true}
      {i | 0 ≤ i ∧ i < size.volume} :=
  ⟨fun _ hp => pointAt_flatIndex hp, fun _ hi => (pointAt_isInside hsize hi.1 hi.2).2⟩

/-- **The places of the points are all places of the list**, each of them once. -/
theorem bijOn_flatIndex {size : Point} (hsize : size.isSize = true) :
    Set.BijOn (flatIndex size) {p | p.isInside size = true} {i | 0 ≤ i ∧ i < size.volume} :=
  (invOn_flatIndex hsize).bijOn (fun _ hp => flatIndex_lt hp)
    fun _ hi => (pointAt_isInside hsize hi.1 hi.2).1

theorem index?_of_isInside {d : Dense α} {p : Point} (h : p.isInside d.size = true) :
    d.index? p = some (flatIndex d.size p) := if_pos h

theorem index?_eq_none {d : Dense α} {p : Point} (h : p.isInside d.size = false) :
    d.index? p = none := by
  rw [index?, h]
  rfl

/-- The items stand in the order of the points of the box. -/
theorem map_fst_items (d : Dense α) : d.items.map Prod.fst = d.size.box := by
  rw [items_eq, List.map_filterMap]
  refine (List.filterMap_congr fun p hp => ?_).trans List.filterMap_some
  obtain ⟨a, ha⟩ := Option.isSome_iff_exists.1 (get?_isSome (d := d) (Point.mem_box.1 hp))
  rw [ha]
  rfl

/-! ### Arrays from flat lists -/

@[simp] theorem size_scatter (d : Dense (Option α)) (n : Nat) (data : List α) :
    (scatter d n data).size = d.size := by
  induction data generalizing d n with
  | nil => rfl
  | cons a rest ih => exact ih _ _

/-- Values that belong to later places leave a point as it is. -/
theorem get?_scatter_of_lt {d : Dense (Option α)} {n : Nat} {data : List α}
    (hfit : n + data.length ≤ d.size.volume.toNat) {p : Point}
    (hp : p.isInside d.size = true) (hplace : (flatIndex d.size p).toNat < n) :
    (scatter d n data).get? p = d.get? p := by
  induction data generalizing d n with
  | nil => rfl
  | cons a rest ih =>
      rw [List.length_cons] at hfit
      have hpoint := (pointAt_isInside (i := n) d.isSize (by omega) (by omega)).2
      have hne : p ≠ pointAt d.size (Int.ofNat n) := by
        rintro rfl
        rw [Int.ofNat_eq_natCast, hpoint] at hplace
        omega
      refine (ih (d := d.modify (pointAt d.size (Int.ofNat n)) fun _ => some a) ?_ hp ?_).trans ?_
      · rw [size_modify]
        omega
      · rw [size_modify]
        omega
      · rw [get?_modify, if_neg hne]

/-- **A scattered value is found at the point of its place.** -/
theorem get?_scatter {d : Dense (Option α)} {n : Nat} {data : List α}
    (hfit : n + data.length ≤ d.size.volume.toNat) {p : Point}
    (hp : p.isInside d.size = true) {k : Nat} (hplace : (flatIndex d.size p).toNat = n + k)
    {a : α} (ha : data[k]? = some a) : (scatter d n data).get? p = some (some a) := by
  induction data generalizing d n k with
  | nil => cases ha
  | cons b rest ih =>
      rw [List.length_cons] at hfit
      rw [scatter]
      cases k with
      | zero =>
          obtain rfl : b = a := Option.some.inj ha
          have hpoint : pointAt d.size (Int.ofNat n) = p := by
            rw [← pointAt_flatIndex hp]
            congr 1
            have := (flatIndex_lt hp).1
            simp only [Int.ofNat_eq_natCast]
            omega
          obtain ⟨old, hold⟩ := Option.isSome_iff_exists.1 (get?_isSome hp)
          rw [hpoint]
          -- the values behind the first one do not come back to its point
          refine (get?_scatter_of_lt (d := d.modify p fun _ => some b) ?_ hp ?_).trans ?_
          · rw [size_modify]
            omega
          · rw [size_modify]
            omega
          · rw [get?_modify, if_pos rfl, hold]
            rfl
      | succ k =>
          refine ih (d := d.modify (pointAt d.size (Int.ofNat n)) fun _ => some b) ?_ hp ?_ ha
          · rw [size_modify]
            omega
          · rw [size_modify]
            omega

/-- An array without missing values is the array of its values. -/
theorem complete?_eq_some {d : Dense (Option α)}
    (h : ∀ p, p.isInside d.size = true → ∃ a, d.get? p = some (some a)) :
    ∃ e, complete? d = some e ∧ e.size = d.size
      ∧ ∀ p, d.get? p = (e.get? p).map some := by
  have hcells : (d.cells.filterMap id).map some = d.cells := by
    rw [List.map_filterMap_some_eq_filter_map_isSome, List.map_id, List.filter_eq_self]
    intro c hc
    obtain ⟨i, hi, rfl⟩ := List.getElem_of_mem hc
    obtain ⟨p, hp, hplace⟩ := exists_boxIndex_eq d.isSize (Int.natCast_nonneg i)
      (by rw [d.full] at hi; omega)
    obtain ⟨a, ha⟩ := h p hp
    rw [get?_of_isInside hp, hplace, Int.toNat_natCast, List.getElem?_eq_getElem hi] at ha
    rw [Option.some.inj ha]
    rfl
  have hlength : (d.cells.filterMap id).length = d.size.volume.toNat := by
    rw [← d.full, ← hcells, List.length_map, hcells]
  refine ⟨_, dif_pos hlength, rfl, fun p => ?_⟩
  simp only [get?]
  split
  · rw [← hcells, List.getElem?_map, hcells]
  · rfl

/-- A flat list becomes an array if there is one value for each point, and the values are found at
the points of their places. -/
theorem exists_ofFlat? {s : Size} {values : List α}
    (hlength : values.length = s.extents.volume.toNat) :
    ∃ d, ofFlat? s values = some d ∧ d.size = s.extents ∧ ∀ p, p.isInside s.extents = true →
      d.get? p = values[(flatIndex s.extents p).toNat]? := by
  have hvalue : ∀ p, p.isInside s.extents = true → ∃ a,
      values[(flatIndex s.extents p).toNat]? = some a
        ∧ (scatter (filled s none) 0 values).get? p = some (some a) := by
    intro p hp
    have hlt := flatIndex_lt hp
    obtain ⟨a, ha⟩ : ∃ a, values[(flatIndex s.extents p).toNat]? = some a :=
      ⟨_, List.getElem?_eq_getElem (by omega)⟩
    exact ⟨a, ha, get?_scatter (d := filled s none) (n := 0) (by rw [hlength]; exact
      (Nat.zero_add _).le) hp (Nat.zero_add _).symm ha⟩
  have hsize : (scatter (filled s none) 0 values).size = s.extents := size_scatter _ _ _
  obtain ⟨d, hd, hdsize, hget⟩ := complete?_eq_some (d := scatter (filled s none) 0 values)
    fun p hp => by
      obtain ⟨a, _, ha⟩ := hvalue p (hsize ▸ hp)
      exact ⟨a, ha⟩
  refine ⟨d, (if_pos hlength).trans hd, hdsize.trans hsize, fun p hp => ?_⟩
  obtain ⟨a, hflat, ha⟩ := hvalue p hp
  rw [hflat]
  have hp' := hget p
  rw [ha] at hp'
  cases hfound : d.get? p with
  | none => rw [hfound] at hp'; cases hp'
  | some b =>
      rw [hfound] at hp'
      exact (Option.some.inj hp').symm

/-- A flat list becomes an array exactly if there can be one over the box and the number of values
is right, and then the array with these values at the points of their places. -/
theorem array_eq_ok_iff {s : Size} {values : List α} {d : Dense α} :
    array s values = .ok d ↔ s.Holdable ∧ (values.length : Int) = s.extents.volume
      ∧ d.size = s.extents ∧ ∀ p, p.isInside s.extents = true →
        d.get? p = values[(flatIndex s.extents p).toNat]? := by
  have hvolume := Point.volume_nonneg s.isSize
  unfold array
  rw [Fault.bind_eq_ok_iff]
  constructor
  · rintro ⟨⟨⟩, hchecked, h⟩
    by_cases hlength : values.length = s.extents.volume.toNat
    · obtain ⟨e, he, hsize, hget⟩ := exists_ofFlat? hlength
      rw [he] at h
      cases h
      exact ⟨Size.checkArray_eq_ok_iff.1 hchecked, by omega, hsize, hget⟩
    · rw [ofFlat?, if_neg hlength] at h
      cases h
  · rintro ⟨hholds, hlength, hsize, hget⟩
    have hcount : values.length = s.extents.volume.toNat := by omega
    obtain ⟨e, he, hesize, heget⟩ := exists_ofFlat? hcount
    refine ⟨(), Size.checkArray_eq_ok_iff.2 hholds, ?_⟩
    have hed : e = d := by
      refine ext_get? (hesize.trans hsize.symm) fun p => ?_
      cases hp : p.isInside s.extents with
      | true => rw [hget p hp, heget p hp]
      | false => rw [get?_eq_none (by rw [hesize, hp]), get?_eq_none (by rw [hsize, hp])]
    rw [he, hed]
    rfl

/-- A flat list becomes an array exactly if there is one value for each point of a box over which
there can be an array. -/
theorem exists_array_iff {s : Size} {values : List α} :
    (∃ d, array s values = .ok d) ↔ s.Holdable ∧ (values.length : Int) = s.extents.volume := by
  have hvolume := Point.volume_nonneg s.isSize
  constructor
  · rintro ⟨d, h⟩
    obtain ⟨hholds, hlength, _⟩ := array_eq_ok_iff.1 h
    exact ⟨hholds, hlength⟩
  · rintro ⟨hholds, hlength⟩
    have hcount : values.length = s.extents.volume.toNat := by omega
    obtain ⟨d, _, hsize, hget⟩ := exists_ofFlat? hcount
    exact ⟨d, array_eq_ok_iff.2 ⟨hholds, hlength, hsize, hget⟩⟩

/-! ### Arrays from nested lists -/

/-- Nested lists whose lengths agree: each plane has as many rows as the first one, and each row as
many values as the first row of the first plane. -/
structure Rectangular (planes : List (List (List α))) : Prop where
  rows : ∀ first ∈ planes.head?, ∀ plane ∈ planes, plane.length = first.length
  items : ∀ first ∈ planes.head?, ∀ top ∈ first.head?, ∀ plane ∈ planes, ∀ row ∈ plane,
    row.length = top.length

/-- The lengths are the given ones exactly if the check says so. -/
theorem checkNested_eq_ok_iff {rows items : Nat} {planes : List (List (List α))} :
    checkNested rows items planes = .ok ()
      ↔ ∀ plane ∈ planes, plane.length = rows ∧ ∀ row ∈ plane, row.length = items := by
  induction planes with
  | nil => simp [checkNested]
  | cons plane rest ih =>
      rw [checkNested, List.forall_mem_cons]
      split
      · rename_i hrows
        exact ⟨fun h => (by cases h), fun h => absurd h.1.1 hrows⟩
      · rename_i hrows
        split
        · rename_i hitems
          obtain ⟨row, hrow, hne⟩ := List.any_eq_true.1 hitems
          refine ⟨fun h => (by cases h), fun h => ?_⟩
          simp [h.1.2 row hrow] at hne
        · rename_i hitems
          rw [ih]
          refine ⟨fun h => ⟨⟨Decidable.of_not_not hrows, ?_⟩, h⟩, fun h => h.2⟩
          simpa using hitems

/-- The lengths of nested lists are those of the first plane and of its first row exactly if they
agree. -/
theorem rectangular_iff {planes : List (List (List α))} :
    Rectangular planes ↔ ∀ plane ∈ planes, plane.length = (nestedSize planes).extents.y.toNat
      ∧ ∀ row ∈ plane, row.length = (nestedSize planes).extents.x.toNat := by
  cases planes with
  | nil =>
      constructor
      · intro _ plane hplane
        cases hplane
      · intro _
        exact ⟨fun _ h => (by cases h), fun _ h => (by cases h)⟩
  | cons first rest =>
      have hy : (nestedSize (first :: rest)).extents.y.toNat = first.length := rfl
      rw [hy]
      cases first with
      | nil =>
          -- there is no row at all
          constructor
          · intro h plane hplane
            have hlength := h.rows [] rfl plane hplane
            refine ⟨hlength, fun row hrow => ?_⟩
            rw [List.length_eq_zero_iff.1 hlength] at hrow
            cases hrow
          · intro h
            refine ⟨?_, ?_⟩
            · rintro _ ⟨⟩ plane hplane
              exact (h plane hplane).1
            · rintro _ ⟨⟩ _ ⟨⟩
      | cons top others =>
          have hx : (nestedSize ((top :: others) :: rest)).extents.x.toNat = top.length := rfl
          rw [hx]
          constructor
          · intro h plane hplane
            exact ⟨h.rows _ rfl plane hplane, h.items _ rfl _ rfl plane hplane⟩
          · intro h
            refine ⟨?_, ?_⟩
            · rintro _ ⟨⟩ plane hplane
              exact (h plane hplane).1
            · rintro _ ⟨⟩ _ ⟨⟩ plane hplane
              exact (h plane hplane).2

theorem length_flatten_rows {items : Nat} {rows : List (List α)}
    (h : ∀ row ∈ rows, row.length = items) : rows.flatten.length = rows.length * items := by
  rw [List.length_flatten, List.map_congr_left h, List.map_const', List.sum_replicate]
  rfl

/-- Joined nested lists have one value for each point of their box. -/
theorem length_flatten_flatten {planes : List (List (List α))} (h : Rectangular planes) :
    (planes.flatten.flatten.length : Int) = (nestedSize planes).extents.volume := by
  have hlengths := rectangular_iff.1 h
  have hrows : planes.flatten.length = planes.length * (nestedSize planes).extents.y.toNat :=
    length_flatten_rows fun plane hplane => (hlengths plane hplane).1
  have hitems : ∀ row ∈ planes.flatten, row.length = (nestedSize planes).extents.x.toNat := by
    intro row hrow
    obtain ⟨plane, hplane, hrow⟩ := List.mem_flatten.1 hrow
    exact (hlengths plane hplane).2 row hrow
  rw [length_flatten_rows hitems, hrows]
  simp only [nestedSize, Point.volume, Int.toNat_natCast]
  push_cast
  ring

/-- Nested lists become an array exactly if their lengths agree and there can be an array over their
box, and then the array of the joined lists. -/
theorem ofNested_eq_ok_iff {planes : List (List (List α))} {d : Dense α} :
    ofNested planes = .ok d ↔ Rectangular planes
      ∧ array (nestedSize planes) planes.flatten.flatten = .ok d := by
  rw [rectangular_iff, ← checkNested_eq_ok_iff]
  unfold ofNested
  simp only []
  rw [Fault.bind_eq_ok_iff]
  exact ⟨fun ⟨⟨⟩, hchecked, h⟩ => ⟨hchecked, h⟩, fun ⟨hchecked, h⟩ => ⟨(), hchecked, h⟩⟩

theorem exists_ofNested_iff {planes : List (List (List α))} :
    (∃ d, ofNested planes = .ok d) ↔ Rectangular planes ∧ (nestedSize planes).Holdable := by
  constructor
  · rintro ⟨d, h⟩
    obtain ⟨hrect, harray⟩ := ofNested_eq_ok_iff.1 h
    exact ⟨hrect, (exists_array_iff.1 ⟨d, harray⟩).1⟩
  · rintro ⟨hrect, hholds⟩
    obtain ⟨d, harray⟩ := exists_array_iff.2 ⟨hholds, length_flatten_flatten hrect⟩
    exact ⟨d, ofNested_eq_ok_iff.2 ⟨hrect, harray⟩⟩

/-- The place of an entry of nested lists among all of their entries. -/
theorem getElem?_flatten_flatten {planes : List (List (List α))} {X Y : Nat}
    (h : ∀ plane ∈ planes, plane.length = Y ∧ ∀ row ∈ plane, row.length = X) {x y z : Nat}
    {plane : List (List α)} {row : List α} (hplane : planes[z]? = some plane)
    (hrow : plane[y]? = some row) (hx : x < X) :
    planes.flatten.flatten[(z * Y + y) * X + x]? = row[x]? := by
  have hy : y < Y := by
    rw [← (h plane (List.mem_of_getElem? hplane)).1]
    exact (List.getElem?_eq_some_iff.1 hrow).1
  have hrows : planes.flatten[z * Y + y]? = some row := by
    rw [← List.flatMap_id, ← hrow]
    exact Row.getElem?_flatMap_of_length (fun p hp => (h p hp).1) hplane hy
  have hlengths : ∀ r ∈ planes.flatten, (id r).length = X := by
    intro r hr
    obtain ⟨p, hp, hr⟩ := List.mem_flatten.1 hr
    exact (h p hp).2 r hr
  rw [← List.flatMap_id]
  exact Row.getElem?_flatMap_of_length hlengths hrows hx

/-- **The value at a point is found in the nested lists.** -/
theorem get?_ofNested {planes : List (List (List α))} {d : Dense α} (h : ofNested planes = .ok d)
    (x y z : Nat) :
    d.get? ⟨x, y, z⟩
      = (planes[z]?.bind fun plane => plane[y]?).bind fun row => row[x]? := by
  obtain ⟨hrect, harray⟩ := ofNested_eq_ok_iff.1 h
  obtain ⟨_, _, hsize, hflat⟩ := array_eq_ok_iff.1 harray
  rw [rectangular_iff] at hrect
  obtain ⟨X, Y, hnested⟩ : ∃ X Y : Nat, (nestedSize planes).extents = ⟨X, Y, planes.length⟩ :=
    ⟨_, _, rfl⟩
  rw [hnested] at hsize hrect hflat
  simp only [Int.toNat_natCast] at hrect
  have hinside : (⟨x, y, z⟩ : Point).isInside d.size = true
      ↔ x < X ∧ y < Y ∧ z < planes.length := by
    rw [hsize, Point.isInside_iff]
    simp only
    omega
  have houtside : ¬(x < X ∧ y < Y ∧ z < planes.length) → d.get? ⟨x, y, z⟩ = none := by
    intro hnot
    exact get?_eq_none (by rw [← Bool.not_eq_true, hinside]; exact hnot)
  cases hplane : planes[z]? with
  | none =>
      have hz := List.getElem?_eq_none_iff.1 hplane
      rw [houtside (by omega)]
      rfl
  | some plane =>
      obtain ⟨hlength, hitems⟩ := hrect plane (List.mem_of_getElem? hplane)
      have hz := (List.getElem?_eq_some_iff.1 hplane).1
      rw [Option.bind_some]
      cases hrow : plane[y]? with
      | none =>
          have hy := List.getElem?_eq_none_iff.1 hrow
          rw [houtside (by omega)]
          rfl
      | some row =>
          have hwidth := hitems row (List.mem_of_getElem? hrow)
          have hy := (List.getElem?_eq_some_iff.1 hrow).1
          rw [Option.bind_some]
          by_cases hx : x < X
          · have hplace : flatIndex ⟨X, Y, planes.length⟩ ⟨x, y, z⟩
                = (((z * Y + y) * X + x : Nat) : Int) := by
              simp only [flatIndex]
              push_cast
              ring
            rw [hflat _ (hsize ▸ hinside.2 ⟨hx, by omega, hz⟩), hplace, Int.toNat_natCast]
            exact getElem?_flatten_flatten hrect hplane hrow hx
          · rw [houtside (by omega), List.getElem?_eq_none (by omega)]

/-! ### The layout -/

/-- **The layout of arrays.**  A flat list becomes an array exactly if it has one value for each
point of the box and there can be an array over the box.  Then the point `(x, y, z)` has the place
`x + y * X + z * X * Y` and the value at this place of the list, and no other point has a place or a
value.  The places are a bijection from the points inside to the places of the list, undone by
`pointAt`.  The items are the points of the box, each of them once, with their values.  Nested lists
become an array exactly if their lengths agree and there can be an array over their box, and the
value at `(x, y, z)` is the entry `x` of row `y` of plane `z`. -/
theorem array_layout {α : Type} :
    (∀ (s : Size) (values : List α),
      ((∃ d, array s values = .ok d) ↔ s.Holdable ∧ (values.length : Int) = s.extents.volume)
      ∧ ∀ d, array s values = .ok d →
        (∀ p, p.isInside s.extents = true →
          d.index? p = some (p.x + p.y * s.extents.x + p.z * s.extents.x * s.extents.y)
          ∧ ∃ i a, d.index? p = some i ∧ values[i.toNat]? = some a ∧ d.get? p = some a)
        ∧ (∀ p, p.isInside s.extents = false → d.index? p = none ∧ d.get? p = none)
        ∧ Set.BijOn d.index? {p | p.isInside s.extents = true}
          (some '' {i | 0 ≤ i ∧ i < s.extents.volume})
        ∧ (∀ p i, d.index? p = some i → pointAt s.extents i = p)
        ∧ (∀ i, 0 ≤ i → i < s.extents.volume → d.index? (pointAt s.extents i) = some i)
        ∧ (d.items.map Prod.fst).Nodup
        ∧ (∀ p, p ∈ d.items.map Prod.fst ↔ p.isInside s.extents = true)
        ∧ ∀ p a, (p, a) ∈ d.items ↔ d.get? p = some a)
    ∧ ∀ planes : List (List (List α)),
      ((∃ d, ofNested planes = .ok d) ↔ Rectangular planes ∧ (nestedSize planes).Holdable)
      ∧ ∀ d, ofNested planes = .ok d →
        (∀ x y z : Nat, d.get? ⟨x, y, z⟩
          = (planes[z]?.bind fun plane => plane[y]?).bind fun row => row[x]?)
        ∧ ∀ p, p.isInside d.size = false → d.get? p = none := by
  refine ⟨fun s values => ⟨exists_array_iff, fun d h => ?_⟩, fun planes =>
    ⟨exists_ofNested_iff, fun d h => ⟨get?_ofNested h, fun p => get?_eq_none⟩⟩⟩
  obtain ⟨_, hlength, hsize, hflat⟩ := array_eq_ok_iff.1 h
  rw [← hsize] at hlength hflat ⊢
  have hindex : Set.EqOn (fun p => some (flatIndex d.size p)) d.index?
      {p | p.isInside d.size = true} := fun p hp => (index?_of_isInside hp).symm
  refine ⟨fun p hp => ⟨index?_of_isInside hp, ?_⟩, fun p hp => ⟨index?_eq_none hp, get?_eq_none hp⟩,
    ?_, fun p i hi => ?_, fun i h0 hi => ?_, ?_, fun p => ?_, fun p a => mem_items⟩
  · obtain ⟨a, ha⟩ := Option.isSome_iff_exists.1 (get?_isSome hp)
    exact ⟨_, a, index?_of_isInside hp, by rw [← hflat p hp, ha], ha⟩
  · exact ((Option.some_injective Int).injOn.bijOn_image.comp (bijOn_flatIndex d.isSize)).congr
      hindex
  · -- only points inside have a place
    cases hp : p.isInside d.size with
    | false => rw [index?_eq_none hp] at hi; cases hi
    | true =>
        rw [index?_of_isInside hp] at hi
        obtain rfl := Option.some.inj hi
        exact pointAt_flatIndex hp
  · obtain ⟨hinside, hplace⟩ := pointAt_isInside d.isSize h0 hi
    rw [index?_of_isInside hinside, hplace]
  · rw [map_fst_items]
    exact Point.nodup_box d.size
  · rw [map_fst_items]
    exact Point.mem_box

/-- Twelve values over a box with three different extents, and nested lists of the same lengths. -/
theorem array_layout_crate :
    ∃ d nested, array ⟨⟨3, 2, 2⟩, rfl⟩ (List.range 12) = .ok d
      ∧ (⟨2, 0, 1⟩ : Point).isInside ⟨3, 2, 2⟩ = true ∧ d.get? ⟨2, 0, 1⟩ = some 8
      ∧ (⟨2, -1, 1⟩ : Point).isInside ⟨3, 2, 2⟩ = false ∧ d.get? ⟨2, -1, 1⟩ = none
      ∧ d.index? (pointAt ⟨3, 2, 2⟩ 10) = some 10
      ∧ ofNested [[[0, 1, 2], [3, 4, 5]], [[6, 7, 8], [9, 10, 11]]] = .ok nested
      ∧ nested.get? ⟨1, 0, 1⟩ = some 7 := by
  obtain ⟨hflat, hnested⟩ := array_layout (α := Nat)
  obtain ⟨hmade, hlaid⟩ := hflat ⟨⟨3, 2, 2⟩, rfl⟩ (List.range 12)
  obtain ⟨d, hd⟩ := hmade.2 ⟨by decide, by decide⟩
  obtain ⟨hinside, houtside, _, _, hback, _⟩ := hlaid d hd
  have hpoint : (⟨2, 0, 1⟩ : Point).isInside ⟨3, 2, 2⟩ = true := by decide
  have hnegative : (⟨2, -1, 1⟩ : Point).isInside ⟨3, 2, 2⟩ = false := by decide
  obtain ⟨hplace, i, a, hi, hvalue, hget⟩ := hinside _ hpoint
  obtain ⟨hmade', hfound⟩ := hnested [[[0, 1, 2], [3, 4, 5]], [[6, 7, 8], [9, 10, 11]]]
  obtain ⟨nested, hnested⟩ := hmade'.2 ⟨⟨by simp, by simp⟩, by decide⟩
  refine ⟨d, nested, hd, hpoint, ?_, hnegative, (houtside _ hnegative).2,
    hback 10 (by decide) (by decide), hnested, (hfound nested hnested).1 1 0 1⟩
  obtain rfl := Option.some.inj (hplace.symm.trans hi)
  obtain rfl := Option.some.inj hvalue
  exact hget

/-- An empty box may be too wide for an array, although it needs no value. -/
theorem not_array_wide :
    (([] : List Nat).length : Int) = (⟨0, 2 ^ 63, 1⟩ : Point).volume
      ∧ array ⟨⟨0, 2 ^ 63, 1⟩, rfl⟩ ([] : List Nat) = .error .extentTooLarge
      ∧ ¬∃ d, array ⟨⟨0, 2 ^ 63, 1⟩, rfl⟩ ([] : List Nat) = .ok d := by
  have hrefused : array ⟨⟨0, 2 ^ 63, 1⟩, rfl⟩ ([] : List Nat) = .error .extentTooLarge := rfl
  refine ⟨by decide, hrefused, ?_⟩
  rintro ⟨d, h⟩
  rw [hrefused] at h
  cases h

end Dense

end Breadboard
