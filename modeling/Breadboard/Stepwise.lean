/-!
**Changes that may stop half-way.**

Some changes of a list are made item by item, and a failure at one item leaves the items before it
changed.  Such a change is an action of `EStateM`, whose failures carry the state that was reached.

Main definitions:

* `Stepwise.onEach` — the same action on each item of a list in turn;
* `Stepwise.zoom` — an action on a part of the state.

Main results:

* `Stepwise.onEach_eq_map` — **if the action succeeds on every item, the list is mapped**.
-/

set_option autoImplicit false
set_option relaxedAutoImplicit false

namespace Breadboard

universe u

namespace Stepwise

variable {ε σ τ α : Type u}

/-- The same action on each item of a list in turn; a failure leaves the later items as they are. -/
def onEach (act : EStateM ε σ PUnit) : EStateM ε (List σ) PUnit := fun items =>
  match items with
  | [] => .ok ⟨⟩ []
  | item :: rest =>
      match act item with
      | .error fault item' => .error fault (item' :: rest)
      | .ok _ item' =>
          match onEach act rest with
          | .error fault rest' => .error fault (item' :: rest')
          | .ok _ rest' => .ok ⟨⟩ (item' :: rest')

/-- An action on a part of the state, given by reading the part and by putting it back. -/
def zoom (read : σ → τ) (write : τ → σ → σ) (act : EStateM ε τ α) : EStateM ε σ α := fun s =>
  match act (read s) with
  | .ok a t => .ok a (write t s)
  | .error fault t => .error fault (write t s)

/-- **If the action succeeds on every item, the list is mapped.** -/
theorem onEach_eq_map {act : EStateM ε σ PUnit} {f : σ → σ} {items : List σ}
    (h : ∀ item ∈ items, act item = .ok ⟨⟩ (f item)) :
    onEach act items = .ok ⟨⟩ (items.map f) := by
  induction items with
  | nil => rfl
  | cons item rest ih =>
      have hrest := ih fun i hi => h i (List.mem_cons_of_mem item hi)
      simp [onEach, h item List.mem_cons_self, hrest]

/-- An action that succeeds on the part succeeds on the whole. -/
theorem zoom_eq_ok {read : σ → τ} {write : τ → σ → σ} {act : EStateM ε τ α} {s : σ} {t : τ} {a : α}
    (h : act (read s) = .ok a t) : zoom read write act s = .ok a (write t s) := by
  rw [zoom, h]

end Stepwise

end Breadboard
