import Breadboard.Proofs.Circuit.Extent
import Breadboard.Proofs.Grid.Box
import Breadboard.Proofs.Wiring.Drafting
import Breadboard.Proofs.Wiring.Numerals
import Mathlib.Tactic.Ring

/-!
**Boxes of units are addressed by their points.**

The units of a box, the units behind the points of its slots and the names of its sectors are three
lists over the same points.  They agree: behind every point stands the unit that stands there, and
the sector that is named after a point is that point.  As different points have different names, all
sectors can be declared one after the other.

Main definitions:

* `Part.has` — a part takes signals, or emits them;
* `Circuit.numbered` — numbers put behind points one after the other;
* `Circuit.drawSlot`, `Circuit.drawCube` — a box of units whose slots are drawn step by step, with
  all checks of the steps.

Main results:

* `Point.getElem?_box` — **the place of a point in its box**;
* `Circuit.drawSlot_eq` — no other check of the steps fails, and the slots are those of the box;
* `Circuit.cube_addressed` — **a box of units is addressed exactly by its points**.
-/

set_option autoImplicit false
set_option relaxedAutoImplicit false

namespace Breadboard

namespace Point

/-! ### The place of a point in its box -/

/-- **The place of a point in its box.** -/
theorem getElem?_box {size p : Point} (h : p ∈ size.box) :
    0 ≤ size.boxIndex p ∧ size.box[(size.boxIndex p).toNat]? = some p := by
  obtain ⟨⟨hx0, hx⟩, ⟨hy0, hy⟩, hz0, hz⟩ := isInside_iff.1 (mem_box.1 h)
  obtain ⟨x, y, z, rfl⟩ := exists_natCast (isSize_iff.2 ⟨hx0, hy0, hz0⟩)
  obtain ⟨X, Y, Z, rfl⟩ := exists_natCast (p := size)
    (isSize_iff.2 ⟨by omega, by omega, by omega⟩)
  simp only [Int.ofNat_lt] at hx hy hz
  have hindex : boxIndex ⟨X, Y, Z⟩ ⟨x, y, z⟩
      = ((x * (Y * Z) + (y * Z + z) : Nat) : Int) := by
    simp only [boxIndex]
    push_cast
    ring
  rw [hindex, Int.toNat_natCast, box_natCast]
  refine ⟨Int.natCast_nonneg _, ?_⟩
  have hrow : y * Z + z < Y * Z := by
    have hle : (y + 1) * Z ≤ Y * Z := Nat.mul_le_mul_right Z hy
    rw [Nat.succ_mul] at hle
    omega
  rw [Row.getElem?_flatMap_of_length (fun i _ => by simp [List.length_flatMap])
      (List.getElem?_range hx) hrow,
    Row.getElem?_flatMap_of_length (fun j _ => by simp) (List.getElem?_range hy) hz,
    List.getElem?_map, List.getElem?_range hz]
  rfl

end Point

/-- The part needs a slot on the side. -/
def Part.has (p : Part) : Side → Bool
  | .input => p.hasInput
  | .output => p.hasOutput

namespace Circuit

/-! ### Numbers behind points -/

/-- Numbers from `i` on, put behind points one after the other. -/
def numbered : Nat → List Point → Dense (List Int) → Dense (List Int)
  | _, [], ids => ids
  | i, p :: rest, ids => numbered (i + 1) rest (ids.modify p fun _ => [(i : Int)])

theorem size_numbered (i : Nat) (points : List Point) (ids : Dense (List Int)) :
    (numbered i points ids).size = ids.size := by
  induction points generalizing i ids with
  | nil => rfl
  | cons p rest ih => rw [numbered, ih, Dense.size_modify]

/-- Points that are not numbered keep what stands behind them. -/
theorem get?_numbered_of_notMem {points : List Point} {q : Point} (hq : q ∉ points) (i : Nat)
    (ids : Dense (List Int)) : (numbered i points ids).get? q = ids.get? q := by
  induction points generalizing i ids with
  | nil => rfl
  | cons p rest ih =>
      rw [List.mem_cons, not_or] at hq
      rw [numbered, ih hq.2, Dense.get?_modify, if_neg hq.1]

/-- Behind every point stands its place in the list. -/
theorem get?_numbered {points : List Point} (hpoints : points.Nodup) {k : Nat} {q : Point}
    (hk : points[k]? = some q) (i : Nat) (ids : Dense (List Int))
    (hq : q.isInside ids.size = true) :
    (numbered i points ids).get? q = some [((i + k : Nat) : Int)] := by
  induction points generalizing i k ids with
  | nil => cases hk
  | cons p rest ih =>
      obtain ⟨hp, hrest⟩ := List.nodup_cons.1 hpoints
      cases k with
      | zero =>
          obtain rfl : p = q := Option.some.inj hk
          obtain ⟨old, hold⟩ := Option.isSome_iff_exists.1 (Dense.get?_isSome hq)
          rw [numbered, get?_numbered_of_notMem hp, Dense.get?_modify, if_pos rfl, hold]
          rfl
      | succ k =>
          rw [List.getElem?_cons_succ] at hk
          rw [numbered, ih hrest hk (i + 1) (ids.modify p fun _ => [(i : Int)]) hq, Nat.add_assoc,
            Nat.add_comm 1 k]

/-! ### Drawing a box step by step -/

/-- The slot of a box as it is drawn: there has to be an array over the box, numbers are put behind
its points, and then the sectors are declared, all of them with their checks. -/
def drawSlot (size : Size) (kind : String) : Except Fault Slot := do
  size.checkArray
  let slot ← Slot.ofMap? defaultSlot kind size.extents
    (numbered 0 size.extents.box (.filled size []))
  size.extents.box.foldlM (fun slot p => slot.bindSector (pointName p) ⟨p, .one, "bit"⟩) slot

/-- The slots of a side as they are drawn, where the device may need none. -/
def drawSlots (size : Size) (kind : String) (needed : Bool) : Except Fault (List Slot) := do
  if needed then pure [← drawSlot size kind] else pure []

/-- A box of units whose slots are drawn step by step. -/
def drawCube (size : Size) (device : Device) (turn : Turn) (kind : String) :
    Except Fault Circuit := do
  let inputs ← drawSlots size kind device.part.hasInput
  let outputs ← drawSlots size kind device.part.hasOutput
  build (size.extents.box.map fun p => ⟨device, p, turn⟩) inputs outputs

/-- The numbers behind the points of a box are their places. -/
theorem numbered_box (size : Size) :
    numbered 0 size.extents.box (.filled size [])
      = .ofFn size fun p => [size.extents.boxIndex p] := by
  refine Dense.ext_get? (size_numbered _ _ _) fun q => ?_
  cases hq : q.isInside size.extents with
  | false =>
      rw [Dense.get?_eq_none (d := .ofFn size _) hq, Dense.get?_eq_none]
      rw [size_numbered]
      exact hq
  | true =>
      obtain ⟨hnonneg, hplace⟩ := Point.getElem?_box (Point.mem_box.2 hq)
      rw [Dense.get?_ofFn _ hq, get?_numbered (Point.nodup_box _) hplace 0 _ hq, Nat.zero_add,
        Int.toNat_of_nonneg hnonneg]

/-- The sectors of a box can be declared one after the other. -/
theorem sectorsFit_cubeSlot (size : Size) (kind : String) :
    Slot.SectorsFit size.extents (cubeSlot size kind).sectors := by
  have hnames : Keyed.names (cubeSlot size kind).sectors = size.extents.box.map pointName := by
    rw [Keyed.names, cubeSlot, List.map_map]
    rfl
  refine ⟨hnames ▸ nodup_pointName_box _, fun hwhole => ?_, fun s hs => ?_⟩
  · rw [hnames] at hwhole
    obtain ⟨p, _, hp⟩ := List.mem_map.1 hwhole
    exact pointName_ne_wholeSector p hp
  · obtain ⟨p, hp, rfl⟩ := List.mem_map.1 hs
    have hinside := Point.isInside_iff.1 (Point.mem_box.1 hp)
    rw [Point.boxFits_iff]
    simp only [Point.one]
    omega

/-- **No other check fails** when the slot of a box is drawn over which there can be an array. -/
theorem drawSlot_eq (size : Size) (kind : String) : drawSlot size kind = (do
    size.checkArray
    pure (cubeSlot size kind)) := by
  have hmap : Slot.ofMap? defaultSlot kind size.extents
      (numbered 0 size.extents.box (.filled size []))
        = .ok { cubeSlot size kind with sectors := [] } := by
    have hsize : (numbered 0 size.extents.box (.filled size [])).size = size.extents :=
      size_numbered _ _ _
    rw [Slot.ofMap?, if_pos hsize, numbered_box]
    rfl
  have hbind : (cubeSlot size kind).sectors.foldlM
      (fun (s : Slot) (sub : String × Sector) => s.bindSector sub.1 sub.2)
      { cubeSlot size kind with sectors := [] } = .ok (cubeSlot size kind) :=
    Slot.foldlM_bindSector (sectorsFit_cubeSlot size kind)
  rw [show (cubeSlot size kind).sectors
    = size.extents.box.map fun p => (pointName p, ⟨p, .one, "bit"⟩) from rfl,
    List.foldlM_map] at hbind
  rw [drawSlot]
  simp only [hmap, Fault.ok_bind, hbind]
  rfl

theorem drawSlots_eq (size : Size) (kind : String) (needed : Bool) :
    drawSlots size kind needed = cubeSlots size kind needed := by
  rw [drawSlots, cubeSlots, drawSlot_eq]
  split
  · cases size.checkArray <;> rfl
  · rfl

theorem drawCube_eq (size : Size) (device : Device) (turn : Turn) (kind : String) :
    drawCube size device turn kind = cube size device turn kind := by
  rw [drawCube, drawSlots_eq, drawSlots_eq, cube]

/-! ### Points, units and sectors -/

section Cube

variable {size : Size} {device : Device} {turn : Turn} {kind : String}

/-- The units behind the points of the slot of a box. -/
theorem getPoint_cubeSlot {p : Point} (hp : p ∈ size.extents.box) :
    (cubeSlot size kind).getPoint p = [size.extents.boxIndex p] := by
  rw [Slot.getPoint, cubeSlot, Dense.get?_ofFn _ (Point.mem_box.1 hp)]
  rfl

/-- The unit that stands at a point of the box is the one whose number is the place of the point. -/
theorem getElem?_pos_iff {p : Point} (hp : p ∈ size.extents.box) {j : Nat} :
    (size.extents.box.map fun p => (⟨device, p, turn⟩ : Element))[j]?.map Element.pos = some p
      ↔ (j : Int) = size.extents.boxIndex p := by
  obtain ⟨hnonneg, hplace⟩ := Point.getElem?_box hp
  rw [List.getElem?_map, Option.map_map]
  show Option.map id size.extents.box[j]? = some p ↔ _
  rw [Option.map_id_fun, id]
  constructor
  · intro hj
    have hlt := (List.getElem?_eq_some_iff.1 hj).1
    have hsame := (List.getElem?_inj hlt (Point.nodup_box size.extents)).1 (hj.trans hplace.symm)
    omega
  · intro hj
    rw [← hplace, ← hj, Int.toNat_natCast]

/-- The slot of a box addresses its units. -/
theorem inRange_cubeSlot (size : Size) (kind : String) :
    (cubeSlot size kind).InRange size.extents.box.length := by
  intro p i hi
  cases hp : p.isInside size.extents with
  | false =>
      rw [Slot.getPoint, cubeSlot, Dense.get?_eq_none (d := .ofFn size _) hp] at hi
      cases hi
  | true =>
      have hmem := Point.mem_box.2 hp
      rw [getPoint_cubeSlot hmem] at hi
      obtain rfl := List.mem_singleton.1 hi
      obtain ⟨hnonneg, hplace⟩ := Point.getElem?_box hmem
      have hlt := (List.getElem?_eq_some_iff.1 hplace).1
      omega

/-- The slots of a side, if there can be an array over the box for which they are needed. -/
theorem cubeSlots_eq_ok (kind : String) {needed : Bool} (h : needed = true → size.Holdable) :
    cubeSlots size kind needed = .ok (if needed then [cubeSlot size kind] else []) := by
  cases needed with
  | false => rfl
  | true =>
      rw [cubeSlots, if_pos rfl, Size.checkArray_eq_ok_iff.2 (h rfl)]
      rfl

theorem cubeSlots_eq_error (kind : String) (h : ¬ size.Holdable) :
    ∃ fault, fault.RefusesBox ∧ cubeSlots size kind true = .error fault := by
  obtain ⟨fault, hrefuses, hcheck⟩ := Size.checkArray_eq_error h
  refine ⟨fault, hrefuses, ?_⟩
  rw [cubeSlots, if_pos rfl, hcheck, Fault.error_bind]

/-- A box of units is built, if the extents of the device reach no further than a word. -/
theorem exists_cube (hdevice : Element.Reachable device.part.size) (turn : Turn) (kind : String)
    (hsize : ∀ side, device.part.has side = true → size.Holdable) :
    ∃ bounds, cube size device turn kind
      = .ok ⟨size.extents.box.map fun p => ⟨device, p, turn⟩,
          if device.part.hasInput then [cubeSlot size kind] else [],
          if device.part.hasOutput then [cubeSlot size kind] else [], bounds⟩ := by
  have hnames (needed : Bool) :
      ((if needed then [cubeSlot size kind] else []).map Slot.name).Nodup := by
    split
    · exact List.nodup_singleton _
    · exact List.nodup_nil
  have hslots (needed : Bool) : ∀ s ∈ if needed then [cubeSlot size kind] else [],
      s.InRange (size.extents.box.map fun p => (⟨device, p, turn⟩ : Element)).length := by
    intro s hs
    rw [List.length_map]
    split at hs
    · rw [List.mem_singleton.1 hs]
      exact inRange_cubeSlot size kind
    · cases hs
  obtain ⟨bounds, hbuilt⟩ := exists_build (hnames device.part.hasInput)
    (hnames device.part.hasOutput) (hslots _) (hslots _) (boundingBox_isOk_iff.2 fun e he => by
      obtain ⟨p, _, rfl⟩ := List.mem_map.1 he
      exact Element.corners_isOk hdevice)
  exact ⟨bounds, cube_eq_ok_iff.2 ⟨_, _, cubeSlots_eq_ok kind (hsize .input),
    cubeSlots_eq_ok kind (hsize .output), hbuilt⟩⟩

/-- A box is refused for its size, if a slot over it is needed. -/
theorem cube_eq_error {side : Side} (hside : device.part.has side = true) (hsize : ¬ size.Holdable)
    (turn : Turn) (kind : String) :
    ∃ fault, fault.RefusesBox ∧ cube size device turn kind = .error fault := by
  obtain ⟨fault, hrefuses, hslots⟩ := cubeSlots_eq_error kind hsize
  refine ⟨fault, hrefuses, ?_⟩
  unfold cube
  cases hin : device.part.hasInput with
  | true => rw [hslots, Fault.error_bind]
  | false =>
      -- only the other side needs a slot
      have hout : device.part.hasOutput = true := by
        cases side with
        | input => rw [Part.has, hin] at hside; cases hside
        | output => exact hside
      have hnone : cubeSlots size kind false = .ok [] := rfl
      rw [hout, hnone, Fault.ok_bind, hslots, Fault.error_bind]

/-- A box of units is built exactly if there can be an array over it wherever a slot is needed. -/
theorem exists_cube_iff (hdevice : Element.Reachable device.part.size) (turn : Turn)
    (kind : String) : (∃ c, cube size device turn kind = .ok c)
      ↔ ∀ side, device.part.has side = true → size.Holdable := by
  refine ⟨?_, fun hsize => ?_⟩
  · rintro ⟨c, hc⟩ side hside
    by_contra hsize
    obtain ⟨fault, _, hfails⟩ := cube_eq_error hside hsize turn kind
    rw [hfails] at hc
    cases hc
  · obtain ⟨bounds, hcube⟩ := exists_cube hdevice turn kind hsize
    exact ⟨_, hcube⟩

/-- Units of a single cell fill the box at whose points they stand. -/
theorem boundingBox_cube (hpart : device.part.size = .one) (hvolume : size.extents.volume ≠ 0)
    (turn : Turn) :
    boundingBox (size.extents.box.map fun p => ⟨device, p, turn⟩)
      = .ok (.origin, size.extents) := by
  have hone : Point.one ≤ size.extents := by
    obtain ⟨hx, hy, hz⟩ := Point.isSize_iff.1 size.isSize
    rw [Point.volume, mul_ne_zero_iff, mul_ne_zero_iff] at hvolume
    obtain ⟨⟨hx0, hy0⟩, hz0⟩ := hvolume
    simp only [Point.le_def, Point.one]
    omega
  have hcells : cellsOf (size.extents.box.map fun p => ⟨device, p, turn⟩) = size.extents.box := by
    rw [cellsOf, List.flatMap_map]
    refine (List.flatMap_congr fun p _ => ?_).trans (List.flatMap_singleton' _)
    exact Element.cells_of_size_one hpart
  have hspans := Point.spans_box hone
  have hne : (size.extents.box.map fun p => (⟨device, p, turn⟩ : Element)) ≠ [] := by
    obtain ⟨q, hq, _⟩ := hspans.reached .posX
    exact List.ne_nil_of_mem (List.mem_map_of_mem hq)
  have hbox : ∃ box, boundingBox (size.extents.box.map fun p => (⟨device, p, turn⟩ : Element))
      = .ok box := by
    refine boundingBox_isOk_iff.2 fun e he => ?_
    obtain ⟨p, _, rfl⟩ := List.mem_map.1 he
    exact ⟨_, Element.corners_of_size_one hpart⟩
  rw [← hcells] at hspans
  rw [boundingBox_of_spans hbox hne hspans]
  congr 2
  ext <;> simp [Point.one, Point.origin]

/-- **A box of units is addressed exactly by its points.**  A box is built of any device whose
extents fit a word, unless a slot is needed over a box over which there can be no array; no other
check fails on the way.  The box has a unit at each point, in the order of the points, with the
given turn.  If the device takes signals, or emits them, that side has the default slot: it is as
large as the box, behind every point stands the one unit whose place is the point, and the sectors
are the points, each under its three coordinates.  Where units fill a single cell, the bounding box
is the box. -/
theorem cube_addressed (size : Size) {device : Device}
    (hdevice : ∀ v ∈ device.part.size.toList, v < 2 ^ 63) (turn : Turn) (kind : String) :
    drawCube size device turn kind = cube size device turn kind
      ∧ ((∃ c, cube size device turn kind = .ok c)
        ↔ ∀ side, device.part.has side = true → size.Holdable)
      ∧ ((¬ ∃ c, cube size device turn kind = .ok c) →
        ∃ fault, fault.RefusesBox ∧ cube size device turn kind = .error fault)
      ∧ ∀ c, cube size device turn kind = .ok c →
        c.units = size.extents.box.map (fun p => ⟨device, p, turn⟩)
        ∧ (c.units.length : Int) = size.extents.volume
        ∧ (∀ side, device.part.has side = true → ∃ s, c.slots side = [s]
          ∧ s.name = defaultSlot ∧ s.kind = kind ∧ s.size = size.extents
          ∧ (∀ p ∈ size.extents.box, ∃ i : Nat, s.getPoint p = [(i : Int)]
            ∧ ∀ j : Nat, c.units[j]?.map Element.pos = some p ↔ j = i)
          ∧ (∀ p ∈ size.extents.box,
            s.getSector? (toString p.x ++ "_" ++ toString p.y ++ "_" ++ toString p.z)
              = some ⟨p, .one, "bit"⟩)
          ∧ Keyed.names s.sectors = size.extents.box.map fun p =>
            toString p.x ++ "_" ++ toString p.y ++ "_" ++ toString p.z)
        ∧ (∀ side, device.part.has side = false → c.slots side = [])
        ∧ (device.part.size = .one → size.extents.volume ≠ 0 →
          boundingBox c.units = .ok (.origin, size.extents) ∧ c.bounds = size.extents) := by
  have hreach : Element.Reachable device.part.size := by
    simp only [Point.toList, List.mem_cons, List.not_mem_nil, or_false, forall_eq_or_imp,
      forall_eq] at hdevice
    obtain ⟨hx, hy, hz⟩ := hdevice
    exact ⟨by omega, by omega, by omega⟩
  have hiff : (∃ c, cube size device turn kind = .ok c)
      ↔ ∀ side, device.part.has side = true → size.Holdable := exists_cube_iff hreach turn kind
  refine ⟨drawCube_eq size device turn kind, hiff, fun hnone => ?_, fun c hc => ?_⟩
  · have hsize := mt hiff.2 hnone
    push Not at hsize
    obtain ⟨side, hside, hsize⟩ := hsize
    exact cube_eq_error hside hsize turn kind
  obtain ⟨bounds, hcube⟩ := exists_cube hreach turn kind (hiff.1 ⟨c, hc⟩)
  obtain rfl : _ = c := Except.ok.inj (hcube.symm.trans hc)
  have hslots (side : Side) : (⟨size.extents.box.map fun p => ⟨device, p, turn⟩,
      if device.part.hasInput then [cubeSlot size kind] else [],
      if device.part.hasOutput then [cubeSlot size kind] else [], bounds⟩ : Circuit).slots side
        = if device.part.has side then [cubeSlot size kind] else [] := by
    cases side <;> rfl
  refine ⟨rfl, ?_, fun side hside => ?_, fun side hside => ?_, fun hpart hvolume => ?_⟩
  · rw [List.length_map]
    exact Point.length_box size.isSize
  · refine ⟨cubeSlot size kind, (hslots side).trans (if_pos hside), rfl, rfl, rfl, fun p hp => ?_,
      fun p hp => getSector?_cubeSlot_of_mem hp kind, ?_⟩
    · have hnonneg := (Point.getElem?_box hp).1
      refine ⟨(size.extents.boxIndex p).toNat, ?_, fun j => (getElem?_pos_iff hp).trans ?_⟩
      · rw [getPoint_cubeSlot hp, Int.toNat_of_nonneg hnonneg]
      · omega
    · rw [Keyed.names, cubeSlot, List.map_map]
      rfl
  · rw [hslots, hside]
    rfl
  · have hbox := boundingBox_cube hpart hvolume turn
    refine ⟨hbox, ?_⟩
    obtain ⟨_, _, _, _, hbuilt⟩ := cube_eq_ok_iff.1 hcube
    have hbounds := (build_eq_ok hbuilt).2.2.2
    rw [hbox] at hbounds
    exact (Except.ok.inj hbounds).symm

/-- A box whose points have names of different lengths. -/
def bale : Size := ⟨⟨2, 1, 12⟩, rfl⟩

theorem cube_addressed_bale :
    (∀ v ∈ (Device.ofPart (.gate .xor)).part.size.toList, v < 2 ^ 63) ∧ bale.Holdable
      ∧ ∃ c, cube bale (.ofPart (.gate .xor)) .quarterX "bus" = .ok c
        ∧ c.units.length = 24 ∧ c.bounds = ⟨2, 1, 12⟩
        ∧ ∀ side, ∃ s, c.slots side = [s] ∧ s.getPoint ⟨1, 0, 10⟩ = [22]
          ∧ s.getSector? "1_0_10" = some ⟨⟨1, 0, 10⟩, .one, "bit"⟩ := by
  have hdevice : ∀ v ∈ (Device.ofPart (.gate .xor)).part.size.toList, v < 2 ^ 63 := by decide
  have hsize : bale.Holdable := by decide
  have hmem : (⟨1, 0, 10⟩ : Point) ∈ bale.extents.box := Point.mem_box.2 (by decide)
  obtain ⟨_, hmade, _, haddressed⟩ := cube_addressed bale hdevice .quarterX "bus"
  obtain ⟨c, hcube⟩ := hmade.2 fun _ _ => hsize
  obtain ⟨hunits, hlength, hslots, _, hbox⟩ := haddressed c hcube
  refine ⟨hdevice, hsize, c, hcube, ?_, (hbox rfl (by decide)).2, fun side => ?_⟩
  · have hvolume : bale.extents.volume = 24 := rfl
    omega
  · obtain ⟨s, hs, _, _, _, hpoints, hsectors, _⟩ := hslots side (by cases side <;> rfl)
    obtain ⟨i, hi, hunit⟩ := hpoints _ hmem
    -- the unit that stands at the point is the twenty-third of the list
    have hplace : i = 22 := ((hunit 22).1 (by rw [hunits]; rfl)).symm
    rw [hplace] at hi
    exact ⟨s, hs, hi, hsectors _ hmem⟩

/-- A box without points may be too wide for an array, and one with points too large. -/
theorem not_cube_wide :
    cube ⟨⟨0, 2 ^ 63, 1⟩, rfl⟩ (.ofPart (.gate .and)) .identity cubeKind = .error .extentTooLarge
      ∧ cube ⟨⟨2 ^ 60, 1, 1⟩, rfl⟩ (.ofPart (.gate .and)) .identity cubeKind
        = .error .boxTooLarge :=
  ⟨rfl, rfl⟩

end Cube

end Circuit

end Breadboard
