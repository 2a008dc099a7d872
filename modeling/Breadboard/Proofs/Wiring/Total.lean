import Breadboard.Wiring.Basic
import Breadboard.Proofs.Loop

/-!
**Wirings that do not fail.**

A wiring may call functions that are given to it, and these may fail.  If they give an answer for
all points, so does the wiring for all boxes: the other wirings only compute with sizes.

Main definitions:

* `Wiring.Total` — every function inside a wiring gives an answer.

Main results:

* `Wiring.total_shift`, `Wiring.Total.chain` — displaced points, and one more step;
* `Wiring.Total.exists_pairs` — **such a wiring proposes pairs for all boxes**.
-/

set_option autoImplicit false
set_option relaxedAutoImplicit false

namespace Breadboard

namespace Wiring

/-- Every function inside a wiring gives an answer: a point or none, and yes or no. -/
inductive Total : Wiring → Prop where
  | straight : Total .straight
  | dim (x y z : Bool) : Total (.dim x y z)
  | map {label : String} {image : Point → Point → Point → Except Fault (Option Point)}
      (answers : ∀ p start stop, ∃ q, image p start stop = .ok q) : Total (.map label image)
  | filter {inner : Wiring} {keep : Point → Point → Except Fault Bool} (total : Total inner)
      (answers : ∀ p q, ∃ b, keep p q = .ok b) : Total (.filter inner keep)
  | joint {first : Wiring} {rest : List (Option Point × Wiring)} (total : Total first)
      (totals : ∀ step ∈ rest, Total step.2) : Total (.joint first rest)
  | own {label : String} {propose : Point → Point → Except Fault (List Pair)}
      (answers : ∀ start stop, ∃ pairs, propose start stop = .ok pairs) : Total (.own label propose)

theorem total_shift (offset : Point) : (shift offset).Total := .map fun _ _ _ => ⟨_, rfl⟩

/-- One more step that does not fail. -/
theorem Total.chain {w next : Wiring} (h : w.Total) (hnext : next.Total) (box : Option Point) :
    (w.chain box next).Total := by
  have hone : (Wiring.joint w [(box, next)]).Total := by
    refine .joint h fun step hstep => ?_
    rw [List.mem_singleton.1 hstep]
    exact hnext
  cases h with
  | straight => exact hone
  | dim x y z => exact hone
  | map answers => exact hone
  | filter total answers => exact hone
  | own answers => exact hone
  | joint total totals =>
      -- the step goes behind those that are there
      refine .joint total fun step hstep => ?_
      rcases List.mem_append.1 hstep with hold | hlast
      · exact totals step hold
      · rw [List.mem_singleton.1 hlast]
        exact hnext

/-- The images of all points of a box, if every point has an answer. -/
theorem exists_mapPairs {image : Point → Point → Point → Except Fault (Option Point)}
    (h : ∀ p start stop, ∃ q, image p start stop = .ok q) (start stop : Point) :
    ∃ pairs, mapPairs image start stop = .ok pairs := by
  have himages : ∀ p ∈ start.box, ∃ found, (do
      pure ((← image p start stop).map fun q => (p, q)) : Except Fault (Option Pair))
        = .ok found := by
    intro p _
    obtain ⟨q, hq⟩ := h p start stop
    rw [hq]
    exact ⟨_, rfl⟩
  obtain ⟨images, himages⟩ := Loop.mapM_isOk_iff.2 himages
  rw [mapPairs, himages]
  exact ⟨_, rfl⟩

/-- The entries of a list that meet a condition, if it is decided for every entry. -/
theorem exists_filterM {α : Type} {keep : α → Except Fault Bool} (h : ∀ a, ∃ b, keep a = .ok b)
    (l : List α) : ∃ kept, l.filterM keep = .ok kept := by
  have haux : ∀ kept, ∃ found, l.filterAuxM keep kept = .ok found := by
    induction l with
    | nil => exact fun kept => ⟨kept, rfl⟩
    | cons a rest ih =>
        intro kept
        obtain ⟨b, hb⟩ := h a
        rw [List.filterAuxM, hb]
        exact ih _
  obtain ⟨found, hfound⟩ := haux []
  rw [List.filterM, hfound]
  exact ⟨_, rfl⟩

/-- Steps that propose pairs can be followed one after the other. -/
theorem exists_pairsThrough {steps : List (Option Point × Wiring)}
    (h : ∀ step ∈ steps, ∀ start stop, ∃ pairs, step.2.pairs start stop = .ok pairs)
    (start stop : Point) (live : List Pair) :
    ∃ pairs, pairsThrough steps start stop live = .ok pairs := by
  induction steps generalizing start live with
  | nil => exact ⟨live, by rw [pairsThrough]⟩
  | cons step rest ih =>
      obtain ⟨box, w⟩ := step
      obtain ⟨proposed, hproposed⟩ :=
        h (box, w) List.mem_cons_self (box.getD start) (stepStop (box.getD start) stop rest)
      rw [pairsThrough]
      simp only [] at hproposed
      simp only [hproposed, Fault.ok_bind]
      exact ih (fun s hs => h s (List.mem_cons_of_mem _ hs)) _ _

/-- **A wiring whose functions give answers proposes pairs for all boxes.** -/
theorem Total.exists_pairs {w : Wiring} (h : w.Total) (start stop : Point) :
    ∃ pairs, w.pairs start stop = .ok pairs := by
  induction h generalizing start stop with
  | straight => exact ⟨_, by rw [pairs]⟩
  | dim x y z => exact ⟨_, by rw [pairs]⟩
  | map answers =>
      rw [pairs]
      exact exists_mapPairs answers start stop
  | filter _ answers ih =>
      obtain ⟨proposed, hproposed⟩ := ih start stop
      rw [pairs, hproposed, Fault.ok_bind]
      exact exists_filterM (fun pair => answers pair.1 pair.2) proposed
  | @joint first rest _ _ ih ihs =>
      obtain ⟨step, hstep⟩ := ih start (stepStop start stop rest)
      obtain ⟨live, hlive⟩ := exists_pairsThrough ihs (stepStop start stop rest) stop
        (continued (start.box.map fun p => (p, p)) step (stepStop start stop rest))
      rw [pairs]
      simp only [hstep, hlive, Fault.ok_bind]
      exact ⟨_, rfl⟩
  | own answers =>
      rw [pairs]
      exact answers start stop

end Wiring

end Breadboard
