import Breadboard.Proofs.Circuit.Renumbered
import Breadboard.Proofs.Circuit.Used

/-!
**Closed circuits.**

In a closed circuit every reference leads to a unit of it, the slots of a side have different names
and the size is that of the bounding box.  Turning a circuit and taking units out of it renumber the
references in three different ways, and however such edits follow one another, and whether they
succeed or fail, a closed circuit stays closed.

Main definitions:

* `Circuit.Closed` — closed circuits;
* `Circuit.Edit`, `Circuit.edited` — the edits of a circuit, one after the other.

Main results:

* `Circuit.closed_of_build` — a circuit that was built is closed if its connections are in range;
* `Circuit.Edit.closed_perform` — every edit keeps a circuit closed, whether it fails or not;
* `Circuit.closed_edited` — **and so does every sequence of edits**.
-/

set_option autoImplicit false
set_option relaxedAutoImplicit false

namespace Breadboard

namespace Renumbering

/-! ### References that stay in range -/

/-- A marked unit gets a number below the number of marked units. -/
theorem rank_lt_count {flags : List Bool} {i : Nat} (h : flags[i]? = some true) :
    rank flags i < flags.count true := by
  have hi : i < flags.length := (List.getElem?_eq_some_iff.1 h).1
  have hlt := rank_lt_rank h hi
  rwa [rank, rank, List.take_length] at hlt

/-- References that were kept lead to kept units. -/
theorem inRange_filterMap_image {table : List (Option Int)} {flags : List Bool}
    {number : Nat → Nat} {m : Nat} (h : Numbers table flags number)
    (hnumber : ∀ i, flags[i]? = some true → number i < m) {ids : List Int} {j : Int}
    (hj : j ∈ ids.filterMap (image table)) : 0 ≤ j ∧ j < m := by
  obtain ⟨i, _, hi⟩ := List.mem_filterMap.1 hj
  rw [h i] at hi
  split at hi
  · rename_i hflag
    have hlt := hnumber i.toNat hflag
    obtain rfl := Option.some.inj hi
    omega
  · cases hi

/-- References without those to a unit that leaves are in range again. -/
theorem inRange_dropFrom {k n : Nat} (hk : k < n) {ids : List Int}
    (hids : ∀ i ∈ ids, 0 ≤ i ∧ i < n) {j : Int} (hj : j ∈ dropFrom k (-1) ids) :
    0 ≤ j ∧ j < (n - 1 : Nat) := by
  obtain ⟨i, hi, rfl⟩ := List.mem_map.1 hj
  obtain ⟨hi, hne⟩ := List.mem_filter.1 hi
  have hrange := hids i hi
  rw [bne_iff_ne] at hne
  split <;> omega

end Renumbering

namespace Circuit

/-- Every reference of a circuit leads to one of its units, the slots of a side have different
names, and the size is that of the bounding box. -/
structure Closed (c : Circuit) : Prop where
  slots : c.SlotsInRange
  wires : c.WiresInRange
  names : ∀ side, ((c.slots side).map Slot.name).Nodup
  bounds : (boundingBox c.units).map Prod.snd = .ok c.bounds

namespace Closed

variable {c : Circuit}

theorem exists_boundingBox (h : c.Closed) : ∃ box, boundingBox c.units = .ok box := by
  have hbounds := h.bounds
  cases hbox : boundingBox c.units with
  | error fault => rw [hbox] at hbounds; cases hbounds
  | ok box => exact ⟨box, rfl⟩

end Closed

/-- A circuit that was built is closed if the connections of its units are in range. -/
theorem closed_of_build {units : List Element} {inputs outputs : List Slot} {c : Circuit}
    (h : build units inputs outputs = .ok c)
    (hwires : ∀ e ∈ units, ∀ w ∈ e.wires, 0 ≤ w ∧ w < units.length) : c.Closed := by
  obtain ⟨hunits, _, _, hbounds⟩ := build_eq_ok h
  refine ⟨slotsInRange_of_build h, ?_, nodup_names_of_build h, ?_⟩
  · intro e he w hw
    rw [hunits] at he ⊢
    exact hwires e he w hw
  · rw [hunits]
    exact hbounds

/-! ### Edits -/

/-- The circuit that an action leaves behind, whether it fails or not. -/
def final {α : Type} (act : CircuitM α) (c : Circuit) : Circuit :=
  match act c with
  | .ok _ c' => c'
  | .error _ c' => c'

theorem final_of_ok {α : Type} {act : CircuitM α} {c c' : Circuit} {a : α}
    (h : act c = .ok a c') : final act c = c' := by
  rw [final, h]

theorem final_of_error {α : Type} {act : CircuitM α} {c c' : Circuit} {fault : Fault}
    (h : act c = .error fault c') : final act c = c' := by
  rw [final, h]

/-- An edit of a circuit. -/
inductive Edit where
  | rotate (turn : Turn)
  | removeUnit (index : Int)
  | filterUnits (keep : Element → Bool)
  | removeUnused
  | replaceUnused (placeholder : Device)

namespace Edit

/-- The circuit that an edit leaves behind, whether it fails or not. -/
def perform : Edit → Circuit → Circuit
  | .rotate turn => final (Circuit.rotate turn)
  | .removeUnit index => final (Circuit.removeUnit index)
  | .filterUnits keep => final (Circuit.filterUnits keep)
  | .removeUnused => final Circuit.removeUnused
  | .replaceUnused placeholder => final (Circuit.replaceUnused placeholder)

/-- A placeholder has extents that reach no further than a word; other edits are not restricted. -/
def Admissible : Edit → Prop
  | .replaceUnused placeholder => Element.Reachable placeholder.part.size
  | _ => True

end Edit

/-- A circuit after edits, some of which may have failed. -/
def edited (edits : List Edit) (c : Circuit) : Circuit :=
  edits.foldl (fun c edit => edit.perform c) c

/-! ### What edits do -/

section Equations

variable {c : Circuit}

/-- Units that cannot be turned stay as they are. -/
theorem rotate_eq_error {t : Turn} {fault : Fault}
    (h : c.units.mapM (rotateUnit t) = .error fault) : rotate t c = .error fault c := by
  show (answer (c.units.mapM (rotateUnit t)) >>= _) c = _
  rw [h]
  rfl

theorem rotate_eq {t : Turn} {units : List Element} (h : c.units.mapM (rotateUnit t) = .ok units) :
    rotate t c = refreshBounds { c with units := units } := by
  show (answer (c.units.mapM (rotateUnit t)) >>= _) c = _
  rw [h]
  rfl

/-- A unit that is not there cannot be removed. -/
theorem removeUnit_eq_error {index : Int}
    (h : (if 0 ≤ index then c.units[index.toNat]? else none) = none) :
    removeUnit index c = .error (.noSuchUnit index c.units.length) c := by
  refine Loop.get_bind.trans ?_
  rw [h]
  rfl

theorem removeUnit_eq {index : Int} {e : Element}
    (h : (if 0 ≤ index then c.units[index.toNat]? else none) = some e) :
    removeUnit index c = (do refreshBounds; pure e : CircuitM Element) (c.without index.toNat) := by
  refine Loop.get_bind.trans ?_
  rw [h]
  rfl

/-- A unit is removed if the units that stay have a bounding box. -/
theorem removeUnit_eq_ok {k : Nat} {e : Element} {box : Point × Point}
    (hunit : c.units[k]? = some e) (hbox : boundingBox (c.without k).units = .ok box) :
    removeUnit k c = .ok e { c.without k with bounds := box.2 } := by
  have hfound : (if 0 ≤ (k : Int) then c.units[(k : Int).toNat]? else none) = some e := by
    rw [if_pos (Int.natCast_nonneg k), Int.toNat_natCast, hunit]
  rw [removeUnit_eq hfound, Int.toNat_natCast]
  exact Loop.bind_of_ok (f := fun _ => pure e) (refreshBounds_eq_ok (c := c.without k) hbox)

theorem removeUnused_eq {flags : List Bool} (h : c.usedFlags = .ok flags) :
    removeUnused c = keepUnits flags c := by
  show (answer c.usedFlags >>= _) c = _
  rw [h]
  rfl

end Equations

/-! ### The size after an edit -/

section Bounds

variable {c c' : Circuit}

/-- The size was just determined anew. -/
theorem bounds_of_refreshBounds (h : refreshBounds c = .ok () c') :
    (boundingBox c'.units).map Prod.snd = .ok c'.bounds := by
  cases hbox : boundingBox c.units with
  | error fault =>
      rw [refreshBounds_eq_error hbox] at h
      cases h
  | ok box =>
      rw [refreshBounds_eq_ok hbox] at h
      cases h
      rw [show boundingBox _ = _ from hbox]
      rfl

theorem bounds_of_applyTable {table : List (Option Int)} (h : applyTable table c = .ok () c') :
    (boundingBox c'.units).map Prod.snd = .ok c'.bounds := by
  obtain ⟨_, _, _, h⟩ := Loop.exists_of_bind_eq_ok h
  obtain ⟨_, _, _, h⟩ := Loop.exists_of_bind_eq_ok h
  obtain ⟨_, _, _, h⟩ := Loop.exists_of_bind_eq_ok h
  exact bounds_of_refreshBounds h

theorem bounds_of_keepUnits {flags : List Bool} {removed : Nat} (hc : c.Closed)
    (h : keepUnits flags c = .ok removed c') :
    (boundingBox c'.units).map Prod.snd = .ok c'.bounds := by
  unfold keepUnits at h
  split at h
  · -- no unit is removed
    cases h
    exact hc.bounds
  · obtain ⟨_, _, htable, h⟩ := Loop.exists_of_bind_eq_ok h
    cases h
    exact bounds_of_applyTable htable

theorem bounds_of_replaceUnused {placeholder : Device} {replaced : Nat}
    (h : replaceUnused placeholder c = .ok replaced c') :
    (boundingBox c'.units).map Prod.snd = .ok c'.bounds := by
  have hend {d : Circuit} {n : Nat} (h : (do refreshBounds; pure n : CircuitM Nat) d
      = .ok replaced c') : (boundingBox c'.units).map Prod.snd = .ok c'.bounds := by
    obtain ⟨_, _, hrefresh, h⟩ := Loop.exists_of_bind_eq_ok h
    cases h
    exact bounds_of_refreshBounds hrefresh
  obtain ⟨_, _, _, h⟩ := Loop.exists_of_bind_eq_ok h
  obtain ⟨_, _, _, h⟩ := Loop.exists_of_bind_eq_ok h
  obtain ⟨_, _, _, h⟩ := Loop.exists_of_bind_eq_ok h
  dsimp only at h
  split at h
  · exact hend h
  · obtain ⟨_, _, _, h⟩ := Loop.exists_of_bind_eq_ok h
    exact hend h

end Bounds

/-! ### Every edit keeps a circuit closed -/

section Edits

variable {c : Circuit}

/-- Slots that keep their names and follow the units are closed again. -/
theorem Closed.of_map (h : c.Closed) {f : Slot → Slot} {units : List Element} {bounds : Point}
    (hname : ∀ s, (f s).name = s.name)
    (hslots : ∀ s, s.InRange c.units.length → (f s).InRange units.length)
    (hwires : ∀ e ∈ units, ∀ w ∈ e.wires, 0 ≤ w ∧ w < units.length)
    (hbounds : (boundingBox units).map Prod.snd = .ok bounds) :
    (⟨units, c.inputs.map f, c.outputs.map f, bounds⟩ : Circuit).Closed := by
  have hside (side : Side) : (⟨units, c.inputs.map f, c.outputs.map f, bounds⟩ : Circuit).slots side
      = (c.slots side).map f := by cases side <;> rfl
  refine ⟨fun side s hs => ?_, hwires, fun side => ?_, hbounds⟩
  · rw [hside] at hs
    obtain ⟨t, ht, rfl⟩ := List.mem_map.1 hs
    exact hslots t (h.slots side t ht)
  · have hnames : ((c.slots side).map f).map Slot.name = (c.slots side).map Slot.name := by
      rw [List.map_map]
      exact List.map_congr_left fun s _ => hname s
    rw [hside, hnames]
    exact h.names side

/-- A turned circuit has the parts and the references that it had. -/
theorem closed_rotate (h : c.Closed) (t : Turn) : (final (rotate t) c).Closed := by
  cases hunits : c.units.mapM (rotateUnit t) with
  | error fault =>
      rw [final_of_error (rotate_eq_error hunits)]
      exact h
  | ok units =>
      have hlength := (Loop.mapM_eq_ok_iff.1 hunits).length_eq
      have hturned : ∀ e ∈ units, ∃ u ∈ c.units, e.part = u.part ∧ e.wires = u.wires := by
        intro e he
        obtain ⟨u, hu, hturn⟩ := Loop.exists_of_mem_mapM hunits he
        obtain ⟨pos, _, hturn⟩ := Fault.bind_eq_ok_iff.1 hturn
        cases hturn
        exact ⟨u, hu, rfl, rfl⟩
      obtain ⟨box, hbox⟩ : ∃ box, boundingBox units = .ok box := by
        refine boundingBox_isOk_of_parts (fun e he => ?_) h.exists_boundingBox
        obtain ⟨u, hu, hpart, _⟩ := hturned e he
        exact ⟨u, hu, hpart⟩
      have hdone : rotate t c = .ok () ⟨units, c.inputs.map id, c.outputs.map id, box.2⟩ := by
        rw [List.map_id, List.map_id, rotate_eq hunits]
        exact refreshBounds_eq_ok (c := { c with units := units }) hbox
      rw [final_of_ok hdone]
      refine h.of_map (fun _ => rfl) (fun s hs => ?_) (fun e he w hw => ?_) ?_
      · rw [← hlength]
        exact hs
      · obtain ⟨u, hu, _, hwires⟩ := hturned e he
        rw [hwires] at hw
        rw [← hlength]
        exact h.wires u hu w hw
      · rw [hbox]
        rfl

/-- References to later units follow when a unit leaves. -/
theorem closed_removeUnit (h : c.Closed) (index : Int) : (final (removeUnit index) c).Closed := by
  cases hunit : (if 0 ≤ index then c.units[index.toNat]? else none) with
  | none =>
      rw [final_of_error (removeUnit_eq_error hunit)]
      exact h
  | some e =>
      obtain ⟨k, rfl⟩ : ∃ k : Nat, index = k := by
        split at hunit
        · exact ⟨index.toNat, by omega⟩
        · cases hunit
      rw [if_pos (Int.natCast_nonneg k), Int.toNat_natCast] at hunit
      have hk : k < c.units.length := (List.getElem?_eq_some_iff.1 hunit).1
      have hlength : (c.without k).units.length = c.units.length - 1 := by
        rw [without, List.length_map, List.length_eraseIdx_of_lt hk]
      obtain ⟨box, hbox⟩ : ∃ box, boundingBox (c.without k).units = .ok box := by
        refine boundingBox_isOk_of_parts (fun u hu => ?_) h.exists_boundingBox
        obtain ⟨v, hv, rfl⟩ := List.mem_map.1 hu
        exact ⟨v, List.mem_of_mem_eraseIdx hv, rfl⟩
      rw [final_of_ok (removeUnit_eq_ok hunit hbox)]
      refine h.of_map (fun _ => rfl) (fun s hs p i hi => ?_) (fun u hu w hw => ?_) ?_
      · rw [hlength]
        rw [Slot.getPoint_dropUnit] at hi
        exact Renumbering.inRange_dropFrom hk (hs p) hi
      · rw [hlength]
        obtain ⟨v, hv, rfl⟩ := List.mem_map.1 hu
        exact Renumbering.inRange_dropFrom hk (h.wires v (List.mem_of_mem_eraseIdx hv)) hw
      · rw [hbox]
        rfl

/-- What a slot addresses after a table that numbers the marked units. -/
theorem inRange_renumbered {table : List (Option Int)} {flags : List Bool} {number : Nat → Nat}
    {m : Nat} (htable : Renumbering.Numbers table flags number)
    (hnumber : ∀ i, flags[i]? = some true → number i < m) (s : Slot) :
    (s.renumbered table).InRange m := by
  intro p i hi
  rw [Slot.getPoint_renumbered] at hi
  exact Renumbering.inRange_filterMap_image htable hnumber hi

/-- The marked units of a closed circuit are a closed circuit. -/
theorem closed_keepUnits (h : c.Closed) {flags : List Bool}
    (hlength : flags.length = c.units.length) : (final (keepUnits flags) c).Closed := by
  obtain ⟨bounds, hkept⟩ := keepUnits_eq_ok hlength h.slots h.wires h.exists_boundingBox
  have hunits : (c.renumbered (Renumbering.keep flags) bounds).units.length
      = flags.count true := by
    rw [renumbered, Renumbering.keep, length_keptUnits (by rw [List.length_map, hlength])]
  have hnumber : ∀ i, flags[i]? = some true → Renumbering.rank flags i
      < (c.renumbered (Renumbering.keep flags) bounds).units.length := fun i hi => by
    rw [hunits]
    exact Renumbering.rank_lt_count hi
  rw [final_of_ok hkept]
  refine h.of_map (fun _ => rfl)
    (fun s _ => inRange_renumbered (Renumbering.numbers_keep flags) hnumber s)
    (fun e he w hw => ?_) (bounds_of_keepUnits h hkept)
  obtain ⟨u, _, rfl⟩ := List.mem_map.1 (mem_of_mem_keptUnits he)
  exact Renumbering.inRange_filterMap_image (Renumbering.numbers_keep flags) hnumber hw

/-- A circuit with placeholders has as many units, and no reference to a placeholder. -/
theorem closed_replaceUnused (h : c.Closed) {placeholder : Device}
    (hplaceholder : Element.Reachable placeholder.part.size) :
    (final (replaceUnused placeholder) c).Closed := by
  obtain ⟨flags, hflags, huses⟩ := usedFlags_eq_ok h.slots h.wires
  obtain ⟨bounds, hreplaced⟩ :=
    replaceUnused_eq_ok hflags huses.length_eq h.slots hplaceholder h.exists_boundingBox
  have hunits : (c.replaced flags placeholder bounds).units.length = c.units.length := by
    rw [replaced, List.length_map, List.length_zip, huses.length_eq, Nat.min_self]
  have hnumber : ∀ i, flags[i]? = some true →
      id i < (c.replaced flags placeholder bounds).units.length := fun i hi => by
    rw [hunits, ← huses.length_eq]
    exact (List.getElem?_eq_some_iff.1 hi).1
  rw [final_of_ok hreplaced]
  refine h.of_map (fun _ => rfl)
    (fun s _ => inRange_renumbered (Renumbering.numbers_keepInPlace flags) hnumber s)
    (fun e he w hw => ?_) (bounds_of_replaceUnused hreplaced)
  obtain ⟨⟨u, flag⟩, hu, rfl⟩ := List.mem_map.1 he
  cases flag with
  | true =>
      -- a unit that stays keeps some of its receivers
      have hrange := h.wires u (List.of_mem_zip hu).1 w (List.mem_filter.1 hw).1
      rw [← hunits] at hrange
      exact hrange
  | false => cases hw

/-- **Every edit keeps a circuit closed**, whether it fails or not. -/
theorem Edit.closed_perform {edit : Edit} (hedit : edit.Admissible) (h : c.Closed) :
    (edit.perform c).Closed := by
  cases edit with
  | rotate turn => exact closed_rotate h turn
  | removeUnit index => exact closed_removeUnit h index
  | filterUnits keep => exact closed_keepUnits h (List.length_map _)
  | removeUnused =>
      obtain ⟨flags, hflags, huses⟩ := usedFlags_eq_ok h.slots h.wires
      show (final Circuit.removeUnused c).Closed
      rw [final, removeUnused_eq hflags]
      exact closed_keepUnits h huses.length_eq
  | replaceUnused placeholder => exact closed_replaceUnused h hedit

/-- **Every sequence of edits keeps a circuit closed.** -/
theorem closed_edited {edits : List Edit} (hedits : ∀ edit ∈ edits, edit.Admissible)
    (h : c.Closed) : (edited edits c).Closed := by
  induction edits generalizing c with
  | nil => exact h
  | cons edit rest ih =>
      exact ih (fun e he => hedits e (List.mem_cons_of_mem edit he))
        (Edit.closed_perform (hedits edit List.mem_cons_self) h)

end Edits

end Circuit

end Breadboard
