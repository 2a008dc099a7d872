import Breadboard.Proofs.Circuit.Live
import Mathlib.Data.List.InsertIdx

/-!
**The sub-circuit that marked units make up.**

Marked units make up a circuit of their own: they stay where they are, in their order, every
reference to one of them becomes its number among them, and all other references are dropped.
Keeping the units that meet a condition gives this sub-circuit, and so does removing the others by
hand, in whatever order that is done.

Main definitions:

* `Renumbering.kept` — the number of a marked unit among the marked units;
* `Renumbering.others` — marks at all units that are not listed;
* `Circuit.InducedBy` — the sub-circuit of the marked units;
* `Circuit.removeEach` — removes units one after the other.

Main results:

* `Renumbering.dropFrom_filterMap_kept` — references follow in the same way when one unit more
  leaves;
* `Circuit.InducedBy.exists_removeUnit` — **removing a unit by hand takes its mark away**;
* `Circuit.InducedBy.exists_removeEach` — and so for units in a row;
* `Circuit.filterUnits_induced` — **keeping units gives the sub-circuit, and removing the others by
  hand gives the same**.
-/

set_option autoImplicit false
set_option relaxedAutoImplicit false

namespace Breadboard

namespace Renumbering

/-! ### The numbers of marked units -/

/-- The number of a marked unit among the marked units; none for the other units. -/
def kept (flags : List Bool) (i : Int) : Option Int :=
  if flags[i.toNat]? = some true then some (rank flags i.toNat : Int) else none

theorem image_keep (flags : List Bool) : image (keep flags) = kept flags :=
  funext (numbers_keep flags)

/-- With one mark fewer, the units behind it have lower ranks by one. -/
theorem rank_set {flags : List Bool} {j : Nat} (hj : flags[j]? = some true) (i : Nat) :
    rank flags i = rank (flags.set j false) i + if j < i then 1 else 0 := by
  induction flags generalizing i j with
  | nil => cases hj
  | cons flag flags ih =>
      cases i with
      | zero => simp [rank_zero]
      | succ i =>
          cases j with
          | zero =>
              obtain rfl : flag = true := Option.some.inj hj
              rw [List.set_cons_zero, rank_cons_succ, rank_cons_succ]
              simp
              omega
          | succ j =>
              rw [List.set_cons_succ, rank_cons_succ, rank_cons_succ, ih hj i]
              simp
              omega

/-- A marked unit stands behind another one if and only if it has a higher rank. -/
theorem rank_lt_rank_iff {flags : List Bool} {i j : Nat} (hi : flags[i]? = some true)
    (hj : flags[j]? = some true) : rank flags i < rank flags j ↔ i < j := by
  constructor
  · intro h
    rcases Nat.lt_trichotomy i j with hlt | rfl | hlt
    · exact hlt
    · omega
    · have := rank_lt_rank hj hlt
      omega
  · exact rank_lt_rank hi

/-- **References follow in the same way when one unit more leaves**: the reference to it is dropped,
and the units behind it have lower numbers by one. -/
theorem dropFrom_filterMap_kept {flags : List Bool} {j : Nat} (hj : flags[j]? = some true)
    {ids : List Int} (hids : ∀ i ∈ ids, 0 ≤ i) :
    dropFrom (rank flags j) (-1) (ids.filterMap (kept flags))
      = ids.filterMap (kept (flags.set j false)) := by
  rw [Circuit.dropFrom_eq, List.filterMap_filterMap]
  refine List.filterMap_congr fun i hi => ?_
  obtain ⟨k, rfl⟩ := Int.eq_ofNat_of_zero_le (hids i hi)
  simp only [kept, Int.toNat_natCast]
  by_cases hk : flags[k]? = some true
  · rw [if_pos hk, Option.bind_some, Circuit.numberWithout]
    by_cases hkj : k = j
    · -- the reference is to the unit that leaves
      subst hkj
      have hlt : k < flags.length := (List.getElem?_eq_some_iff.1 hk).1
      rw [if_pos rfl, List.getElem?_set_self hlt, if_neg (by simp)]
    · have hne : rank flags k ≠ rank flags j := fun e => hkj (rank_inj hk hj e)
      have hlt := rank_lt_rank_iff hj hk
      have hset := rank_set hj k
      rw [if_neg (by exact_mod_cast hne), List.getElem?_set_ne (Ne.symm hkj), if_pos hk]
      by_cases hjk : j < k
      · rw [if_pos (by exact_mod_cast hlt.2 hjk)]
        rw [if_pos hjk] at hset
        exact congrArg some (by omega)
      · rw [if_neg (by exact_mod_cast fun e => hjk (hlt.1 e))]
        rw [if_neg hjk] at hset
        exact congrArg some (by omega)
  · have hset : (flags.set j false)[k]? ≠ some true := by
      rw [List.getElem?_set]
      split
      · split <;> simp
      · exact hk
    rw [if_neg hk, if_neg hset]
    rfl

/-! ### Marks that are taken away -/

/-- The marks of `n` units, those in a list excepted. -/
def others (n : Nat) (gone : List Nat) : List Bool :=
  (List.range n).map fun i => decide (i ∉ gone)

@[simp] theorem length_others (n : Nat) (gone : List Nat) : (others n gone).length = n := by
  simp [others]

theorem getElem?_others {n : Nat} {gone : List Nat} {i : Nat} (hi : i < n) :
    (others n gone)[i]? = some (decide (i ∉ gone)) := by
  simp [others, hi]

/-- With one unit more in the list there is one mark fewer. -/
theorem others_cons (n j : Nat) (gone : List Nat) :
    others n (j :: gone) = (others n gone).set j false := by
  refine List.ext_getElem? fun i => ?_
  rw [List.getElem?_set]
  by_cases hi : i < n
  · rw [getElem?_others hi, getElem?_others hi, length_others]
    by_cases hij : j = i
    · subst hij
      simp [hi]
    · simp [hij, Ne.symm hij]
  · have hnone : ∀ l : List Nat, (others n l)[i]? = none := fun l => by
      rw [List.getElem?_eq_none (by rw [length_others]; omega)]
    rw [hnone, hnone, length_others]
    split
    · rename_i hij
      rw [if_neg (by omega)]
    · rfl

/-- The rank of a unit is its number less the number of units in the list before it. -/
theorem rank_others {n : Nat} {gone : List Nat} (hgone : gone.Nodup) (hlt : ∀ j ∈ gone, j < n)
    {i : Nat} (hi : i ≤ n) : rank (others n gone) i + gone.countP (fun j => decide (j < i)) = i := by
  induction gone with
  | nil =>
      have hall : others n [] = List.replicate n true := by
        simp [others, List.map_const']
      rw [hall, rank, List.take_replicate, List.count_replicate_self]
      simp
      omega
  | cons j gone ih =>
      obtain ⟨hj, hgone⟩ := List.nodup_cons.1 hgone
      have hrank := ih hgone fun k hk => hlt k (List.mem_cons_of_mem j hk)
      have hflag : (others n gone)[j]? = some true := by
        rw [getElem?_others (hlt j List.mem_cons_self), decide_eq_true hj]
      have hset := rank_set hflag i
      rw [others_cons, List.countP_cons]
      simp only [decide_eq_true_eq]
      omega

end Renumbering

namespace Circuit

/-! ### The units that are marked -/

/-- The marked units. -/
def selected (flags : List Bool) (units : List Element) : List Element :=
  ((units.zip flags).filter Prod.snd).map Prod.fst

/-- A table that numbers the marked units keeps these. -/
theorem keptUnits_keepFrom (next : Int) (flags : List Bool) (units : List Element) :
    keptUnits (Renumbering.keepFrom next flags) units = selected flags units := by
  induction flags generalizing next units with
  | nil => simp [Renumbering.keepFrom, keptUnits, selected]
  | cons flag flags ih =>
      cases units with
      | nil => rfl
      | cons e rest =>
          cases flag with
          | true => rw [keptUnits_cons_true, ih]; rfl
          | false => rw [keptUnits_cons_false, ih]; rfl

theorem selected_map (flags : List Bool) (units : List Element) (f : Element → Element) :
    selected flags (units.map f) = (selected flags units).map f := by
  induction flags generalizing units with
  | nil => simp [selected]
  | cons flag flags ih =>
      cases units with
      | nil => rfl
      | cons e rest =>
          have hrest := ih rest
          simp only [selected] at hrest ⊢
          cases flag <;> simp [hrest]

/-- The units that meet a condition are the ones that it marks. -/
theorem selected_map_flags (units : List Element) (keep : Element → Bool) :
    selected (units.map keep) units = units.filter keep := by
  induction units with
  | nil => rfl
  | cons e rest ih =>
      simp only [selected] at ih ⊢
      cases hkeep : keep e <;> simp [hkeep, ih]

/-- Every marked unit is found at its rank. -/
theorem getElem?_selected {flags : List Bool} {units : List Element} {i : Nat}
    (h : flags[i]? = some true) : (selected flags units)[Renumbering.rank flags i]? = units[i]? := by
  rw [← keptUnits_keepFrom 0]
  exact getElem?_keptUnits h

theorem mem_of_mem_selected {flags : List Bool} {units : List Element} {e : Element}
    (h : e ∈ selected flags units) : e ∈ units := by
  rw [← keptUnits_keepFrom 0] at h
  exact mem_of_mem_keptUnits h

/-- With one mark fewer, the unit at its rank is missing. -/
theorem eraseIdx_selected {flags : List Bool} {units : List Element} {j : Nat}
    (hj : flags[j]? = some true) :
    (selected flags units).eraseIdx (Renumbering.rank flags j)
      = selected (flags.set j false) units := by
  induction flags generalizing units j with
  | nil => cases hj
  | cons flag flags ih =>
      cases units with
      | nil => simp [selected]
      | cons e rest =>
          cases j with
          | zero =>
              obtain rfl : flag = true := Option.some.inj hj
              rfl
          | succ j =>
              have hrest := @ih rest j hj
              rw [Renumbering.rank_cons_succ, List.set_cons_succ]
              simp only [selected] at hrest ⊢
              cases flag with
              | true => simpa [Nat.add_comm 1] using hrest
              | false => simpa using hrest

/-! ### Sub-circuits -/

/-- The sub-circuit of the marked units: these units with their slots, every reference to one of
them renumbered and all other references dropped, and the size of the bounding box around them. -/
structure InducedBy (flags : List Bool) (c d : Circuit) : Prop where
  units : d.units = (selected flags c.units).map fun e =>
    { e with wires := e.wires.filterMap (Renumbering.kept flags) }
  slots : ∀ side, d.slots side = (c.slots side).map fun s =>
    { s with ids := s.ids.map fun ids => ids.filterMap (Renumbering.kept flags) }
  bounds : (boundingBox (selected flags c.units)).map Prod.snd = .ok d.bounds

/-- The bounding box does not depend on the connections of units. -/
theorem boundingBox_map_wires (wires : Element → List Int) (units : List Element) :
    boundingBox (units.map fun e => { e with wires := wires e }) = boundingBox units := by
  cases units with
  | nil => rfl
  | cons e rest =>
      simp only [List.map_cons, boundingBox, List.foldlM_map]
      rfl

namespace InducedBy

variable {flags : List Bool} {c d d' : Circuit}

/-- The marked units make up one sub-circuit only. -/
theorem unique (h : InducedBy flags c d) (h' : InducedBy flags c d') : d = d' := by
  have hunits : d.units = d'.units := h.units.trans h'.units.symm
  have hin : d.inputs = d'.inputs := (h.slots .input).trans (h'.slots .input).symm
  have hout : d.outputs = d'.outputs := (h.slots .output).trans (h'.slots .output).symm
  have hbounds : d.bounds = d'.bounds := Except.ok.inj (h.bounds.symm.trans h'.bounds)
  cases d
  cases d'
  simp only at hunits hin hout hbounds
  rw [hunits, hin, hout, hbounds]

/-- Every marked unit is found under its new number. -/
theorem getElem?_units (h : InducedBy flags c d) {i : Nat} {e : Element} (he : c.units[i]? = some e)
    (hi : flags[i]? = some true) : d.units[Renumbering.rank flags i]?
      = some { e with wires := e.wires.filterMap (Renumbering.kept flags) } := by
  rw [h.units, List.getElem?_map, getElem?_selected hi, he]
  rfl

end InducedBy

/-- What a table that keeps the marked units gives is their sub-circuit. -/
theorem inducedBy_renumbered {flags : List Bool} {c : Circuit} {bounds : Point}
    (h : (boundingBox (c.renumbered (Renumbering.keep flags) bounds).units).map Prod.snd
      = .ok bounds) : InducedBy flags c (c.renumbered (Renumbering.keep flags) bounds) := by
  have hunits : (c.renumbered (Renumbering.keep flags) bounds).units
      = (selected flags c.units).map fun e =>
        { e with wires := e.wires.filterMap (Renumbering.kept flags) } := by
    rw [renumbered, Renumbering.keep, keptUnits_keepFrom, selected_map]
    refine List.map_congr_left fun e _ => ?_
    rw [renumberedUnit, ← Renumbering.keep, Renumbering.image_keep]
  refine ⟨hunits, fun side => ?_, ?_⟩
  · rw [← Renumbering.image_keep]
    cases side <;> rfl
  · rw [hunits, boundingBox_map_wires] at h
    exact h

/-- **Keeping marked units of a closed circuit gives their sub-circuit**, which is closed. -/
theorem Closed.exists_keepUnits {c : Circuit} (hc : c.Closed) {flags : List Bool}
    (hlength : flags.length = c.units.length) :
    ∃ d, keepUnits flags c = .ok (flags.count false) d ∧ InducedBy flags c d ∧ d.Closed := by
  obtain ⟨bounds, hkept⟩ := keepUnits_eq_ok hlength hc.slots hc.wires hc.exists_boundingBox
  have hclosed := closed_keepUnits hc hlength
  rw [final_of_ok hkept] at hclosed
  exact ⟨_, hkept, inducedBy_renumbered hclosed.bounds, hclosed⟩

/-- A closed circuit is the sub-circuit of all its units. -/
theorem Closed.inducedBy_all {c : Circuit} (hc : c.Closed) :
    InducedBy (Renumbering.others c.units.length []) c c := by
  have hlength : (Renumbering.others c.units.length []).length = c.units.length :=
    Renumbering.length_others _ _
  have hcount : (Renumbering.others c.units.length []).count false = 0 := by
    simp [Renumbering.others, List.count_eq_zero]
  obtain ⟨d, hkept, hd, _⟩ := hc.exists_keepUnits hlength
  rw [keepUnits, hcount] at hkept
  cases hkept
  exact hd

/-! ### Removing units by hand -/

/-- **Removing a unit by hand takes its mark away.** -/
theorem InducedBy.exists_removeUnit {flags : List Bool} {c d : Circuit} (hc : c.Closed)
    (hlength : flags.length = c.units.length) (h : InducedBy flags c d) {j : Nat}
    (hj : flags[j]? = some true) :
    ∃ e d', removeUnit (Renumbering.rank flags j) d = .ok e d'
      ∧ InducedBy (flags.set j false) c d' := by
  have hlt : j < c.units.length := hlength ▸ (List.getElem?_eq_some_iff.1 hj).1
  have hunit := h.getElem?_units (List.getElem?_eq_getElem hlt) hj
  -- the references of all that stays follow
  have hwires : ∀ e ∈ c.units,
      Renumbering.dropFrom (Renumbering.rank flags j) (-1)
          (e.wires.filterMap (Renumbering.kept flags))
        = e.wires.filterMap (Renumbering.kept (flags.set j false)) := fun e he =>
    Renumbering.dropFrom_filterMap_kept hj fun w hw => (hc.wires e he w hw).1
  have hunits : (d.without (Renumbering.rank flags j)).units
      = (selected (flags.set j false) c.units).map fun e =>
        { e with wires := e.wires.filterMap (Renumbering.kept (flags.set j false)) } := by
    rw [without, h.units, List.eraseIdx_map, List.map_map, eraseIdx_selected hj]
    refine List.map_congr_left fun e he => ?_
    simp only [Function.comp_apply]
    rw [hwires e (mem_of_mem_selected he)]
  have hslots (side : Side) : (d.without (Renumbering.rank flags j)).slots side
      = (c.slots side).map fun s =>
        { s with ids := s.ids.map fun ids =>
          ids.filterMap (Renumbering.kept (flags.set j false)) } := by
    have hdropped : (d.without (Renumbering.rank flags j)).slots side
        = (d.slots side).map fun s => s.dropUnit (Renumbering.rank flags j) (-1) := by
      cases side <;> rfl
    rw [hdropped, h.slots side, List.map_map]
    refine List.map_congr_left fun s hs => ?_
    have hids : ((s.ids.map fun ids => ids.filterMap (Renumbering.kept flags)).map
          (Renumbering.dropFrom (Renumbering.rank flags j) (-1)))
        = s.ids.map fun ids => ids.filterMap (Renumbering.kept (flags.set j false)) := by
      rw [Dense.map_map]
      exact Slot.map_ids_congr fun p =>
        Renumbering.dropFrom_filterMap_kept hj fun i hi => (hc.slots side s hs p i hi).1
    simp only [Function.comp_apply, Slot.dropUnit, hids]
  obtain ⟨box, hbox⟩ : ∃ box, boundingBox (selected (flags.set j false) c.units) = .ok box := by
    refine boundingBox_isOk_of_parts (fun e he => ?_) hc.exists_boundingBox
    exact ⟨e, mem_of_mem_selected he, rfl⟩
  have hboxed : boundingBox (d.without (Renumbering.rank flags j)).units = .ok box := by
    rw [hunits, boundingBox_map_wires, hbox]
  refine ⟨_, _, removeUnit_eq_ok hunit hboxed, hunits, fun side => ?_, ?_⟩
  · rw [← hslots]
    cases side <;> rfl
  · rw [hbox]
    rfl

/-- Removes units one after the other.  The units are given by the numbers that they had at first,
and those in front, which are gone already, are taken off. -/
def removeEach (gone : List Nat) : List Nat → CircuitM Unit
  | [] => pure ()
  | i :: rest => do
      let _ ← removeUnit ((i : Int) - gone.countP fun j => decide (j < i))
      removeEach (i :: gone) rest

/-- **Removing units in a row takes their marks away.** -/
theorem InducedBy.exists_removeEach {c d : Circuit} (hc : c.Closed) {gone order : List Nat}
    (h : InducedBy (Renumbering.others c.units.length gone) c d) (hgone : gone.Nodup)
    (hlt : ∀ i ∈ gone, i < c.units.length) (horder : order.Nodup)
    (hnew : ∀ i ∈ order, i < c.units.length ∧ i ∉ gone) :
    ∃ d', removeEach gone order d = .ok () d'
      ∧ InducedBy (Renumbering.others c.units.length (order.reverse ++ gone)) c d' := by
  induction order generalizing gone d with
  | nil => exact ⟨d, rfl, h⟩
  | cons i rest ih =>
      obtain ⟨hi, hrest⟩ := List.nodup_cons.1 horder
      obtain ⟨hin, hout⟩ := hnew i List.mem_cons_self
      have hflag : (Renumbering.others c.units.length gone)[i]? = some true := by
        rw [Renumbering.getElem?_others hin, decide_eq_true hout]
      obtain ⟨e, d₁, hstep, hd₁⟩ :=
        h.exists_removeUnit hc (Renumbering.length_others _ _) hflag
      have hrank := Renumbering.rank_others hgone hlt (Nat.le_of_lt hin)
      have hindex : (i : Int) - gone.countP (fun j => decide (j < i))
          = Renumbering.rank (Renumbering.others c.units.length gone) i := by omega
      rw [← Renumbering.others_cons] at hd₁
      obtain ⟨d₂, hlater, hd₂⟩ := ih hd₁ (List.nodup_cons.2 ⟨hout, hgone⟩)
        (List.forall_mem_cons.2 ⟨hin, hlt⟩) hrest fun k hk => by
          obtain ⟨hkn, hkout⟩ := hnew k (List.mem_cons_of_mem i hk)
          refine ⟨hkn, fun hmem => ?_⟩
          rcases List.mem_cons.1 hmem with rfl | hmem
          · exact hi hk
          · exact hkout hmem
      refine ⟨d₂, ?_, ?_⟩
      · rw [removeEach, hindex]
        exact (Loop.bind_of_ok hstep).trans hlater
      · rw [List.reverse_cons, List.append_assoc]
        exact hd₂

/-! ### Both ways -/

/-- The units that do not meet a condition, listed in any order, are the ones without a mark. -/
theorem others_eq_map_keep {c : Circuit} {keep : Element → Bool} {order : List Nat}
    (h : ∀ i, i ∈ order ↔ ∃ e, c.units[i]? = some e ∧ keep e = false) :
    Renumbering.others c.units.length order = c.units.map keep := by
  refine List.ext_getElem (by simp) fun i hi hi' => ?_
  have hlt : i < c.units.length := by simpa using hi
  have hmem : i ∈ order ↔ keep c.units[i] = false := by
    rw [h, List.getElem?_eq_getElem hlt]
    simp
  cases hkeep : keep c.units[i] <;> simp [Renumbering.others, hmem, hkeep]

/-- **Keeping units gives the sub-circuit, and removing the others by hand gives the same.**  In a
closed circuit the units that meet a condition can be kept, and the answer is the number of the
others.  The kept units stay in their order, each under its number among them; in their connections,
and behind the points of the slots, the references to kept units are renumbered in this way, and all
others are dropped.  Nothing else of them is changed, and the size is that of the box around the
kept units.  Removing the other units by hand, one after the other in whatever order, succeeds and
leaves the same circuit. -/
theorem filterUnits_induced {c : Circuit} (hc : c.Closed) (keep : Element → Bool) :
    ∃ d, filterUnits keep c = .ok (c.units.countP fun e => !keep e) d
      ∧ d.units = ((c.units.filter keep).map fun e =>
          { e with wires := e.wires.filterMap (Renumbering.kept (c.units.map keep)) })
      ∧ (∀ (i : Nat) (e : Element), c.units[i]? = some e → keep e = true →
          d.units[Renumbering.rank (c.units.map keep) i]? = some
            { e with wires := e.wires.filterMap (Renumbering.kept (c.units.map keep)) })
      ∧ (∀ side, d.slots side = (c.slots side).map fun s =>
          { s with ids := s.ids.map fun ids =>
            ids.filterMap (Renumbering.kept (c.units.map keep)) })
      ∧ (boundingBox (c.units.filter keep)).map Prod.snd = .ok d.bounds
      ∧ ∀ order : List Nat, order.Nodup →
          (∀ i, i ∈ order ↔ ∃ e, c.units[i]? = some e ∧ keep e = false) →
          removeEach [] order c = .ok () d := by
  have hlength : (c.units.map keep).length = c.units.length := List.length_map _
  obtain ⟨d, hkept, hd, _⟩ := hc.exists_keepUnits hlength
  have hcount : (c.units.map keep).count false = c.units.countP fun e => !keep e := by
    simp [List.count_eq_countP, List.countP_map, Function.comp_def]
  have hselected : selected (c.units.map keep) c.units = c.units.filter keep :=
    selected_map_flags _ _
  refine ⟨d, ?_, ?_, ?_, hd.slots, ?_, ?_⟩
  · rw [← hcount]
    exact hkept
  · rw [← hselected]
    exact hd.units
  · intro i e he hkeep
    refine hd.getElem?_units he ?_
    rw [List.getElem?_map, he, Option.map_some, hkeep]
  · rw [← hselected]
    exact hd.bounds
  · intro order horder hmem
    have hnew : ∀ i ∈ order, i < c.units.length ∧ i ∉ [] := fun i hi => by
      obtain ⟨e, he, _⟩ := (hmem i).1 hi
      exact ⟨(List.getElem?_eq_some_iff.1 he).1, List.not_mem_nil⟩
    obtain ⟨d', hremoved, hd'⟩ := hc.inducedBy_all.exists_removeEach hc List.nodup_nil
      (fun _ hi => nomatch hi) horder hnew
    have hmarks : Renumbering.others c.units.length (order.reverse ++ []) = c.units.map keep :=
      others_eq_map_keep fun i => by rw [List.append_nil, List.mem_reverse, hmem]
    rw [hmarks] at hd'
    rw [hremoved, hd.unique hd']

/-- Two gates and two other units that send to one another, some of them twice. -/
def braid : Circuit where
  units := [⟨⟨.gate .and, [2, 1], none, false⟩, ⟨0, 0, 0⟩, .identity⟩,
    ⟨⟨.gate .or, [3, 0, 3], none, false⟩, ⟨1, 0, 0⟩, .identity⟩,
    ⟨⟨.gate .and, [0], none, false⟩, ⟨2, 0, 0⟩, .identity⟩,
    ⟨⟨.timer 7, [1, 3, 2], none, false⟩, ⟨3, 0, 0⟩, .identity⟩]
  inputs := [⟨"_", "bit", .single [0, 1, 1], []⟩]
  outputs := [⟨"_", "bit", .single [3, 2], []⟩]
  bounds := ⟨4, 1, 2⟩

theorem filterUnits_induced_braid :
    braid.Closed ∧ ∃ d, filterUnits (fun e => e.part != .gate .and) braid = .ok 2 d
      ∧ d.units.map (fun e => (e.pos, e.wires)) = [(⟨1, 0, 0⟩, [1, 1]), (⟨3, 0, 0⟩, [0, 1])]
      ∧ d.bounds = ⟨3, 1, 2⟩
      ∧ removeEach [] [2, 0] braid = .ok () d ∧ removeEach [] [0, 2] braid = .ok () d := by
  have hclosed : braid.Closed := by
    refine ⟨fun side s hs => ?_, ?_, fun side => ?_, rfl⟩
    · rw [← Slot.dangling?_eq_none_iff_inRange]
      cases side <;> (obtain rfl := List.mem_singleton.1 hs; decide)
    · show ∀ e ∈ braid.units, ∀ w ∈ e.wires, 0 ≤ w ∧ w < braid.units.length
      decide
    · cases side <;> exact List.nodup_singleton _
  obtain ⟨d, hfilter, hunits, _, _, hbounds, hremoved⟩ :=
    filterUnits_induced hclosed fun e => e.part != .gate .and
  have hgone : ∀ order : List Nat, order.Perm [0, 2] →
      removeEach [] order braid = .ok () d := by
    intro order horder
    refine hremoved order (horder.nodup_iff.2 (by decide)) fun i => ?_
    rw [horder.mem_iff]
    match i with
    | 0 | 1 | 2 | 3 => simp [braid]
    | i + 4 => simp [braid]
  refine ⟨hclosed, d, hfilter, ?_, ?_, hgone _ (by decide), hgone _ (by decide)⟩
  · rw [hunits]
    rfl
  · exact (Except.ok.inj hbounds).symm

end Circuit

end Breadboard
