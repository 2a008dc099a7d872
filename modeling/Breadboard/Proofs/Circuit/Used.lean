import Breadboard.Circuit.Removal
import Breadboard.Proofs.Circuit.InRange

/-!
**Units that are used.**

The search for used units goes through all units in rounds.  A round that changes anything marks a
unit that was not marked before, so the rounds end before they run out, and they end with flags
under which no unit that is not used sends to one that is.

Main definitions:

* `Circuit.SpreadsTo` — flags that hold of every sender to a used unit;
* `Circuit.Uses` — flags that are closed in this sense and hold of what the outputs show.

Main results:

* `Circuit.spreadTo_eq` — what one step of a round does;
* `Circuit.foldlM_spreadTo` — a round that changes nothing has found nothing to mark;
* `Circuit.settle_eq_ok` — the rounds end, with closed flags;
* `Circuit.usedFlags_eq_ok` — **which units are used is found for every circuit**.
-/

set_option autoImplicit false
set_option relaxedAutoImplicit false

namespace Breadboard

namespace Circuit

/-! ### One step -/

/-- Connections that lead to flags can be followed. -/
theorem reachesUsed_eq {flags : List Bool} {wires : List Int}
    (h : ∀ w ∈ wires, 0 ≤ w ∧ w < flags.length) :
    reachesUsed flags wires = .ok (wires.any fun w => flags.getD w.toNat false) := by
  induction wires with
  | nil => rfl
  | cons w rest ih =>
      obtain ⟨h0, hlt⟩ := h w List.mem_cons_self
      have hw : w.toNat < flags.length := by omega
      rw [reachesUsed, Index.get?_of_lt h0 hlt, List.any_cons, List.getD_eq_getElem?_getD,
        List.getElem?_eq_getElem hw]
      cases hf : flags[w.toNat] with
      | true => simp
      | false => simp [ih fun v hv => h v (List.mem_cons_of_mem w hv)]

/-- The flags after one step: the unit is marked if one of its receivers is. -/
def marked (flags : List Bool) (u : Element × Nat) : List Bool :=
  if flags.getD u.2 true then flags
  else if u.1.wires.any fun w => flags.getD w.toNat false then flags.set u.2 true
  else flags

theorem spreadTo_eq {flags : List Bool} {u : Element × Nat}
    (h : ∀ w ∈ u.1.wires, 0 ≤ w ∧ w < flags.length) : spreadTo flags u = .ok (marked flags u) := by
  unfold spreadTo marked
  split
  · rfl
  · rw [reachesUsed_eq h]
    simp only [bind, Except.bind]
    split <;> rfl

@[simp] theorem length_marked (flags : List Bool) (u : Element × Nat) :
    (marked flags u).length = flags.length := by
  unfold marked
  split
  · rfl
  · split <;> simp

/-- A step only marks units. -/
theorem getElem?_marked {flags : List Bool} {u : Element × Nat} {i : Nat}
    (h : flags[i]? = some true) : (marked flags u)[i]? = some true := by
  unfold marked
  split
  · exact h
  · split
    · by_cases hi : u.2 = i
      · obtain ⟨hlt, _⟩ := List.getElem?_eq_some_iff.1 h
        rw [hi, List.getElem?_set_self hlt]
      · rw [List.getElem?_set_ne hi]
        exact h
    · exact h

/-- A step changes nothing, or it marks one unit more. -/
theorem marked_eq_or_count (flags : List Bool) (u : Element × Nat) :
    marked flags u = flags ∨ (marked flags u).count true = flags.count true + 1 := by
  unfold marked
  cases hu : flags.getD u.2 true with
  | true => exact .inl (if_pos rfl)
  | false =>
      rw [if_neg Bool.false_ne_true]
      split
      · right
        have hlt : u.2 < flags.length := by
          rw [List.getD_eq_getElem?_getD] at hu
          by_contra hge
          rw [List.getElem?_eq_none (by omega)] at hu
          cases hu
        rw [List.getD_eq_getElem?_getD, List.getElem?_eq_getElem hlt, Option.getD_some] at hu
        simp [List.count_set, hlt, hu]
      · exact .inl rfl

/-! ### Rounds -/

/-- The flags after one round through given units. -/
def round (units : List (Element × Nat)) (flags : List Bool) : List Bool :=
  units.foldl marked flags

@[simp] theorem length_round (units : List (Element × Nat)) (flags : List Bool) :
    (round units flags).length = flags.length := by
  induction units generalizing flags with
  | nil => rfl
  | cons u rest ih => exact (ih (marked flags u)).trans (length_marked flags u)

theorem foldlM_spreadTo {units : List (Element × Nat)} {flags : List Bool}
    (h : ∀ u ∈ units, ∀ w ∈ u.1.wires, 0 ≤ w ∧ w < flags.length) :
    units.foldlM spreadTo flags = .ok (round units flags) := by
  induction units generalizing flags with
  | nil => rfl
  | cons u rest ih =>
      rw [List.foldlM_cons, spreadTo_eq (h u List.mem_cons_self)]
      show rest.foldlM spreadTo (marked flags u) = .ok (round rest (marked flags u))
      refine ih fun v hv w hw => ?_
      rw [length_marked]
      exact h v (List.mem_cons_of_mem u hv) w hw

/-- A round only marks units. -/
theorem getElem?_round {units : List (Element × Nat)} {flags : List Bool} {i : Nat}
    (h : flags[i]? = some true) : (round units flags)[i]? = some true := by
  induction units generalizing flags with
  | nil => exact h
  | cons u rest ih => exact ih (getElem?_marked h)

/-- A round finds nothing to mark, or it marks a unit. -/
theorem round_cases (units : List (Element × Nat)) (flags : List Bool) :
    (round units flags = flags ∧ ∀ u ∈ units, marked flags u = flags)
      ∨ flags.count true < (round units flags).count true := by
  induction units generalizing flags with
  | nil => exact .inl ⟨rfl, by simp⟩
  | cons u rest ih =>
      have hround : round (u :: rest) flags = round rest (marked flags u) := rfl
      rcases marked_eq_or_count flags u with hu | hu
      · rw [hround, hu]
        rcases ih flags with ⟨hsame, hall⟩ | hlt
        · exact .inl ⟨hsame, List.forall_mem_cons.2 ⟨hu, hall⟩⟩
        · exact .inr hlt
      · right
        rw [hround]
        rcases ih (marked flags u) with ⟨hsame, _⟩ | hlt
        · rw [hsame]
          omega
        · omega

/-- Every unit that sends to a used unit is used. -/
def SpreadsTo (units : List Element) (flags : List Bool) : Prop :=
  ∀ (i : Nat) (e : Element), units[i]? = some e →
    ∀ w ∈ e.wires, flags[w.toNat]? = some true → flags[i]? = some true

/-- Flags that no step changes hold of every sender to a used unit. -/
theorem spreadsTo_of_marked {units : List Element} {flags : List Bool}
    (hlength : flags.length = units.length)
    (h : ∀ u ∈ units.zipIdx, marked flags u = flags) : SpreadsTo units flags := by
  intro i e he w hw hused
  have hi : i < flags.length := by
    rw [hlength]
    exact (List.getElem?_eq_some_iff.1 he).1
  have hsame := h (e, i) (List.mem_zipIdx_iff_getElem?.2 he)
  rw [List.getElem?_eq_getElem hi]
  cases hflag : flags[i] with
  | true => rfl
  | false =>
      -- the step would have marked the unit
      have hget : flags.getD i true = false := by
        rw [List.getD_eq_getElem?_getD, List.getElem?_eq_getElem hi, hflag]
        rfl
      have hany : (e.wires.any fun w => flags.getD w.toNat false) = true := by
        refine List.any_eq_true.2 ⟨w, hw, ?_⟩
        rw [List.getD_eq_getElem?_getD, hused]
        rfl
      rw [marked, hget, if_neg Bool.false_ne_true, hany, if_pos rfl] at hsame
      have hset := congrArg (fun l => l[i]?) hsame
      simp only [List.getElem?_set_self hi, List.getElem?_eq_getElem hi, hflag] at hset
      exact absurd hset (by simp)

/-- A round through all units follows every connection. -/
theorem spread_eq {units : List Element} {flags : List Bool}
    (hwires : ∀ e ∈ units, ∀ w ∈ e.wires, 0 ≤ w ∧ w < units.length)
    (hlength : flags.length = units.length) :
    spread units flags = .ok (round units.zipIdx flags) := by
  refine foldlM_spreadTo fun u hu w hw => ?_
  rw [hlength]
  exact hwires u.1 (List.mem_of_getElem? (List.mem_zipIdx_iff_getElem?.1 hu)) w hw

/-- The rounds end, with closed flags that hold of all units of which the first ones did. -/
theorem settle_eq_ok {units : List Element} {rounds : Nat} {flags : List Bool}
    (hwires : ∀ e ∈ units, ∀ w ∈ e.wires, 0 ≤ w ∧ w < units.length)
    (hlength : flags.length = units.length) (hrounds : units.length < flags.count true + rounds) :
    ∃ last, settle units rounds flags = .ok last ∧ last.length = units.length
      ∧ (∀ i : Nat, flags[i]? = some true → last[i]? = some true) ∧ SpreadsTo units last := by
  -- every round that changes something marks one more unit, so the rounds cannot run out
  induction rounds generalizing flags with
  | zero =>
      have hcount : flags.count true ≤ flags.length := List.count_le_length
      omega
  | succ rounds ih =>
      rw [settle, spread_eq hwires hlength]
      simp only [bind, Except.bind]
      rcases round_cases units.zipIdx flags with ⟨hsame, hall⟩ | hlt
      · rw [if_pos hsame]
        exact ⟨flags, rfl, hlength, fun _ h => h, spreadsTo_of_marked hlength hall⟩
      · have hne : round units.zipIdx flags ≠ flags := by
          intro e
          rw [e] at hlt
          omega
        rw [if_neg hne]
        have hlength' : (round units.zipIdx flags).length = units.length := by
          rw [length_round, hlength]
        obtain ⟨last, hlast, hlen, hmono, hclosed⟩ := ih hlength' (by omega)
        exact ⟨last, hlast, hlen, fun i hi => hmono i (getElem?_round hi), hclosed⟩

/-! ### The flags of a circuit -/

/-- Flags that hold of the marked units, of what the outputs show, and of every sender to a unit of
which they hold. -/
structure Uses (c : Circuit) (flags : List Bool) : Prop where
  length_eq : flags.length = c.units.length
  pinned : ∀ (i : Nat) (e : Element), c.units[i]? = some e → e.pinned = true →
    flags[i]? = some true
  shown : ∀ s ∈ c.outputs, ∀ p, ∀ i ∈ s.getPoint p, flags[i.toNat]? = some true
  spreads : SpreadsTo c.units flags

@[simp] theorem length_markedFlags (c : Circuit) : c.markedFlags.length = c.units.length := by
  simp [markedFlags]

theorem getElem?_markedFlags (c : Circuit) (i : Nat) :
    c.markedFlags[i]? = (c.units[i]?).map fun e =>
      e.pinned || (c.outputs.flatMap Slot.connectedIds).contains (i : Int) := by
  simp [markedFlags, Function.comp_def]

/-- **Which units are used is found for every circuit.** -/
theorem usedFlags_eq_ok {c : Circuit} (hslots : c.SlotsInRange) (hwires : c.WiresInRange) :
    ∃ flags, c.usedFlags = .ok flags ∧ c.Uses flags := by
  have hrounds : c.units.length < c.markedFlags.count true + (c.units.length + 1) := by omega
  obtain ⟨flags, hflags, hlength, hmarked, hspreads⟩ :=
    settle_eq_ok hwires c.length_markedFlags hrounds
  refine ⟨flags, hflags, hlength, ?_, ?_, hspreads⟩
  · intro i e he hpinned
    exact hmarked i (by rw [getElem?_markedFlags, he, Option.map_some, hpinned, Bool.true_or])
  · intro s hs p i hi
    obtain ⟨h0, hlt⟩ := hslots .output s hs p i hi
    have hunit : i.toNat < c.units.length := by omega
    have hshown : i ∈ c.outputs.flatMap Slot.connectedIds := by
      refine List.mem_flatMap.2 ⟨s, hs, ?_⟩
      rw [Slot.connectedIds, Sorted.mem_ofList Sorted.isOrder_intLt]
      exact Slot.mem_flatten_values.2 ⟨p, hi⟩
    have hcast : ((i.toNat : Nat) : Int) = i := by omega
    refine hmarked i.toNat ?_
    rw [getElem?_markedFlags, List.getElem?_eq_getElem hunit, Option.map_some, hcast,
      List.contains_iff_mem.2 hshown, Bool.or_true]

end Circuit

end Breadboard
