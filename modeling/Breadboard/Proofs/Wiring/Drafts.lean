import Breadboard.Proofs.Grid.Box
import Breadboard.Proofs.Wiring.Drafting
import Breadboard.Proofs.Wiring.Numerals

/-!
**Drafts of words and bits.**

The slots of words and of single bits are drafted by calls like any others: the sectors are declared
place by place, and then the slot, or each of its places, is connected.  None of the calls fails.

Main definitions:

* `SlotPlan.Edit.apply` — the plan after a call that drafts it, if the call succeeds;
* `SlotPlan.draft` — the plan that calls draft from nothing, if all of them succeed.

Main results:

* `SlotPlan.addPointSectors_word` — the sectors of a word are declared place by place;
* `SlotPlan.draft_bit`, `SlotPlan.draft_word`, `SlotPlan.draft_wordByBit`,
  `SlotPlan.draft_wordByBit_points` — **how the slots of bits and words are drafted**.
-/

set_option autoImplicit false
set_option relaxedAutoImplicit false

namespace Breadboard

namespace SlotPlan

/-- The plan after a call that drafts it, if the call succeeds. -/
def Edit.apply : Edit → SlotPlan → Except Fault SlotPlan
  | .attach corner size path wiring, plan => plan.attach corner size path wiring
  | .attachFull path wiring, plan => .ok (plan.attachFull path wiring)
  | .attachPoints pathOf, plan => .ok (plan.attachPoints pathOf)
  | .addSector name corner size kind, plan => plan.addSector name corner size kind
  | .addPointSectors kind nameOf, plan =>
      match SlotPlan.addPointSectors kind nameOf plan with
      | .ok _ drafted => .ok drafted
      | .error fault _ => .error fault

/-- The plan that calls draft from nothing, if all of them succeed. -/
def draft (name kind : String) (size : Size) (edits : List Edit) : Except Fault SlotPlan :=
  edits.foldlM (fun plan edit => edit.apply plan) (new name kind size)

theorem draft_cons {name kind : String} {size : Size} {edit : Edit} {first : SlotPlan}
    (h : edit.apply (new name kind size) = .ok first) (edits : List Edit) :
    draft name kind size (edit :: edits)
      = edits.foldlM (fun plan edit => edit.apply plan) first := by
  rw [draft, List.foldlM_cons, h]
  rfl

/-- Calls that add one entry each. -/
theorem foldlM_push {α : Type} {size : Size} {edit : α → Edit} {entry : α → PlanEntry}
    (h : ∀ a (plan : SlotPlan), plan.size = size →
      (edit a).apply plan = .ok (plan.push (entry a)))
    (l : List α) {plan : SlotPlan} (hsize : plan.size = size) :
    (l.map edit).foldlM (fun plan edit => edit.apply plan) plan
      = .ok { plan with entries := plan.entries ++ l.map entry } := by
  induction l generalizing plan with
  | nil => simp [pure, Except.pure]
  | cons a rest ih =>
      rw [List.map_cons, List.foldlM_cons, h a plan hsize]
      refine (ih (show (plan.push (entry a)).size = size from hsize)).trans ?_
      simp [push]

/-- Whole slots are connected path by path. -/
theorem foldlM_attachFull (paths : List String) (plan : SlotPlan) :
    (paths.map fun path => Edit.attachFull path .straight).foldlM
        (fun plan edit => edit.apply plan) plan
      = .ok { plan with entries :=
          plan.entries ++ paths.map fun path => ⟨.origin, plan.bounds, path, .straight⟩ } :=
  foldlM_push (fun path drafted hsize => by rw [Edit.apply, attachFull, bounds, hsize]; rfl)
    paths rfl

/-- The entries of points that are connected one by one, where a path is given for them. -/
def pointEntries (pathOf : Point → Option String) (points : List Point) : List PlanEntry :=
  points.filterMap fun p => (pathOf p).map fun path => ⟨p, .one, path, .straight⟩

theorem attachPoints_eq (plan : SlotPlan) (pathOf : Point → Option String) :
    plan.attachPoints pathOf
      = { plan with entries := plan.entries ++ pointEntries pathOf plan.bounds.box } := by
  rw [attachPoints]
  generalize plan.bounds.box = points
  induction points generalizing plan with
  | nil => simp [pointEntries]
  | cons p rest ih =>
      rw [List.foldl_cons, ih]
      cases h : pathOf p <;> simp [pointEntries, h, push]

/-- The slot of a bit. -/
theorem draft_bit (name : String) (paths : List String) :
    draft name "bit" .one (paths.map fun path => .attachFull path .straight)
      = .ok (bit name paths) :=
  foldlM_attachFull paths (new name "bit" .one)

/-! ### Words -/

/-- The sectors of the first places of a word. -/
def bitSectors (m : Nat) : Keyed Sector :=
  (List.range m).map fun (x : Nat) => (toString x, ⟨⟨x, 0, 0⟩, .one, "bit"⟩)

section Words

variable {n m : Nat}

theorem bitSectors_succ (m : Nat) :
    bitSectors (m + 1) = bitSectors m ++ [(toString m, ⟨⟨m, 0, 0⟩, .one, "bit"⟩)] := by
  rw [bitSectors, List.range_succ, List.map_append]
  rfl

/-- The sector of the next place can be declared. -/
theorem addSector_bit (plan : SlotPlan) (hsize : plan.size = wordSize n) (hm : m < n)
    (hsectors : plan.sectors = bitSectors m) :
    plan.addSector (toString m) ⟨m, 0, 0⟩ .one (some "bit")
      = .ok { plan with sectors := bitSectors (m + 1) } := by
  have hcheck : Slot.checkSector plan.name plan.bounds plan.sectors (toString m)
      ⟨⟨m, 0, 0⟩, .one, "bit"⟩ = .ok () := by
    refine Slot.checkSector_eq_ok_iff.2 ⟨?_, ?_, ?_⟩
    · exact Numeral.toString_ne_empty m
    · rw [hsectors, Keyed.names, bitSectors, List.map_map, List.mem_map]
      rintro ⟨x, hx, he⟩
      exact Nat.ne_of_lt (List.mem_range.1 hx) (Numeral.toString_inj.1 he)
    · rw [Point.boxFits_iff, bounds, hsize]
      simp only [wordSize, Point.one]
      omega
  rw [bitSectors_succ, ← hsectors]
  exact Fault.bind_eq_ok_iff.2 ⟨.one, rfl, Fault.bind_eq_ok_iff.2 ⟨(), hcheck, rfl⟩⟩

/-- The sectors of a word are declared place by place. -/
theorem addPointSectors_word {plan : SlotPlan} (hsize : plan.size = wordSize n)
    (hsectors : plan.sectors = []) :
    addPointSectors "bit" (fun p => toString p.x) plan
      = .ok () { plan with sectors := bitSectors n } := by
  have hbox : plan.bounds.box = (List.range n).flatMap fun (x : Nat) => [(⟨x, 0, 0⟩ : Point)] := by
    rw [bounds, hsize, ← List.map_eq_flatMap]
    exact Point.box_row n
  have hnone : plan = { plan with sectors := bitSectors 0 } := by
    rw [show bitSectors 0 = plan.sectors from hsectors.symm]
  rw [addPointSectors, Loop.get_bind, hbox]
  refine (congrArg _ hnone).trans
    (Loop.forM_rounds (s := fun m => { plan with sectors := bitSectors m }) fun m hm => ?_)
  refine Loop.forM_cons_of_ok ?_
  rw [Loop.get_bind]
  simp only [show toString ((m : Nat) : Int) = toString m from rfl,
    addSector_bit { plan with sectors := bitSectors m } hsize hm rfl]
  rfl

/-- A word without entries. -/
theorem apply_pointSectors (name : String) (n : Nat) :
    (Edit.addPointSectors "bit" fun p => toString p.x).apply (new name "binary" (wordSize n))
      = .ok (word name n []) := by
  rw [Edit.apply, addPointSectors_word rfl rfl]
  rfl

/-- The slot of a word. -/
theorem draft_word (name : String) (n : Nat) (paths : List String) :
    draft name "binary" (wordSize n)
        (.addPointSectors "bit" (fun p => toString p.x)
          :: paths.map fun path => .attachFull path .straight)
      = .ok (word name n paths) := by
  rw [draft_cons (apply_pointSectors name n)]
  exact foldlM_attachFull paths (word name n [])

/-- The slot of a word whose bits are connected one by one, by as many calls. -/
theorem draft_wordByBit (name : String) (n : Nat) (pathOf : Nat → String) :
    draft name "binary" (wordSize n)
        (.addPointSectors "bit" (fun p => toString p.x)
          :: (List.range n).map fun (x : Nat) => .attach ⟨x, 0, 0⟩ .one (pathOf x) .straight)
      = .ok (wordByBit name n pathOf) := by
  rw [draft_cons (apply_pointSectors name n)]
  exact foldlM_push (fun _ _ _ => rfl) (List.range n) (rfl : (word name n []).size = wordSize n)

/-- The slot of a word whose bits are connected one by one, by a single call. -/
theorem draft_wordByBit_points (name : String) {pathAt : Point → Option String}
    {pathOf : Nat → String} (h : ∀ x < n, pathAt ⟨x, 0, 0⟩ = some (pathOf x)) :
    draft name "binary" (wordSize n)
        [.addPointSectors "bit" fun p => toString p.x, .attachPoints pathAt]
      = .ok (wordByBit name n pathOf) := by
  have hbox : (word name n []).bounds.box
      = (List.range n).map fun (x : Nat) => (⟨x, 0, 0⟩ : Point) := Point.box_row n
  have hentries : pointEntries pathAt (word name n []).bounds.box
      = (List.range n).map fun (x : Nat) => ⟨⟨x, 0, 0⟩, .one, pathOf x, .straight⟩ := by
    rw [pointEntries, hbox, List.filterMap_map, ← List.filterMap_eq_map']
    refine List.filterMap_congr fun x hx => ?_
    rw [Function.comp_apply, h x (List.mem_range.1 hx), Option.map_some]
  rw [draft_cons (apply_pointSectors name n), List.foldlM_cons, Edit.apply, attachPoints_eq,
    hentries]
  rfl

end Words

end SlotPlan

end Breadboard
