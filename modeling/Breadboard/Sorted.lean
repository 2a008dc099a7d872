/-!
**Sorted lists without repeats.**

A finite set is written down as the increasing list of its members.  The order is given as a Boolean
test; it is meant to be a strict total order.

Main definitions:

* `Sorted.insert` — one more member;
* `Sorted.ofList` — the members of a list.

Main results:

* `Sorted.mem_ofList` — **nothing is lost and nothing is added**;
* `Sorted.pairwise_ofList` — **the result is increasing**.
-/

set_option autoImplicit false
set_option relaxedAutoImplicit false

namespace Breadboard

universe u

namespace Sorted

variable {α : Type u}

/-- The laws of a strict total order given by a Boolean test. -/
structure IsOrder (lt : α → α → Bool) : Prop where
  asymm : ∀ a b, lt a b = true → lt b a = false
  trans : ∀ a b c, lt a b = true → lt b c = true → lt a c = true
  total : ∀ a b, lt a b = false → lt b a = false → a = b

/-- Nothing is before itself. -/
theorem IsOrder.irrefl {lt : α → α → Bool} (h : IsOrder lt) (a : α) : lt a a = false := by
  cases e : lt a a with
  | false => rfl
  | true => rw [h.asymm a a e] at e; cases e

/-- One more member of an increasing list; a member that is there already is not repeated. -/
def insert (lt : α → α → Bool) (a : α) : List α → List α
  | [] => [a]
  | b :: rest =>
      if lt a b then a :: b :: rest
      else if lt b a then b :: insert lt a rest
      else b :: rest

def ofList (lt : α → α → Bool) (l : List α) : List α := l.foldr (insert lt) []

theorem mem_insert {lt : α → α → Bool} (h : IsOrder lt) {a x : α} {l : List α} :
    x ∈ insert lt a l ↔ x = a ∨ x ∈ l := by
  induction l with
  | nil => simp [insert]
  | cons b rest ih =>
      unfold insert
      split
      · simp
      · split
        · simp only [List.mem_cons, ih]
          exact or_left_comm
        · rename_i hab hba
          have e : a = b := h.total a b (by simpa using hab) (by simpa using hba)
          simp [e]

/-- **Nothing is lost and nothing is added.** -/
theorem mem_ofList {lt : α → α → Bool} (h : IsOrder lt) {x : α} {l : List α} :
    x ∈ ofList lt l ↔ x ∈ l := by
  induction l with
  | nil => simp [ofList]
  | cons a rest ih =>
      simp only [ofList, List.foldr_cons] at ih ⊢
      rw [mem_insert h, ih, List.mem_cons]

theorem pairwise_insert {lt : α → α → Bool} (h : IsOrder lt) {a : α} {l : List α}
    (hl : l.Pairwise fun a b => lt a b = true) :
    (insert lt a l).Pairwise fun a b => lt a b = true := by
  induction l with
  | nil => simp [insert]
  | cons b rest ih =>
      rw [List.pairwise_cons] at hl
      unfold insert
      split
      · rename_i hab
        refine List.pairwise_cons.2 ⟨?_, List.pairwise_cons.2 hl⟩
        intro x hx
        rcases List.mem_cons.1 hx with e | hx
        · rw [e]; exact hab
        · exact h.trans a b x hab (hl.1 x hx)
      · split
        · rename_i hba
          refine List.pairwise_cons.2 ⟨?_, ih hl.2⟩
          intro x hx
          rcases (mem_insert h).1 hx with e | hx
          · rw [e]; exact hba
          · exact hl.1 x hx
        · exact List.pairwise_cons.2 hl

/-- **The result is increasing.** -/
theorem pairwise_ofList {lt : α → α → Bool} (h : IsOrder lt) (l : List α) :
    (ofList lt l).Pairwise fun a b => lt a b = true := by
  induction l with
  | nil => simp [ofList]
  | cons a rest ih =>
      simp only [ofList, List.foldr_cons] at ih ⊢
      exact pairwise_insert h ih

def intLt (a b : Int) : Bool := decide (a < b)

/-- The order of texts by their characters' codes. -/
def textLt (a b : String) : Bool := decide (a < b)

theorem isOrder_intLt : IsOrder intLt where
  asymm a b h := by simp only [intLt, decide_eq_true_eq, decide_eq_false_iff_not] at *; omega
  trans a b c h k := by simp only [intLt, decide_eq_true_eq] at *; omega
  total a b h k := by simp only [intLt, decide_eq_false_iff_not] at *; omega

end Sorted

end Breadboard
