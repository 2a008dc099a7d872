import Breadboard.Fault
import Mathlib.Data.List.Forall2

/-!
**Loops that may fail.**

A loop over a list whose steps may fail succeeds exactly if every step does.  What holds at the
beginning and is kept by every step that succeeds holds at the end.

Main results:

* `Loop.foldlM_invariant` — **what every step keeps holds at the end**;
* `Loop.foldlM_isOk`, `Loop.exists_step` — a loop succeeds if its steps do, and only then;
* `Loop.foldlM_congr` — loops with the same steps are the same;
* `Loop.exists_step_of_error` — a loop that fails has failed at some entry;
* `Loop.forM_eq_ok_iff` — a list passes a check exactly if each of its entries does;
* `Loop.mapM_eq_ok_iff` — a list is mapped exactly if each of its entries is;
* `Loop.mapM_eq_error_iff` — and otherwise the first entry that is not mapped decides;
* `Loop.mapM_eq_map` — the same for entries whose results are known;
* `Loop.mapM_eq_some_map` — and for readings that may find nothing;
* `Loop.mapM_map_result₂` — and for entries whose results are functions of others;
* `Loop.forM_rounds` — rounds of actions lead on from state to state.
-/

set_option autoImplicit false
set_option relaxedAutoImplicit false

namespace Breadboard

namespace Loop

variable {α β σ : Type}

/-- **What every step keeps holds at the end.** -/
theorem foldlM_invariant (I : σ → Prop) {f : σ → α → Except Fault σ} {l : List α} {s r : σ}
    (h : l.foldlM f s = .ok r) (hs : I s)
    (hstep : ∀ a ∈ l, ∀ s s', I s → f s a = .ok s' → I s') : I r := by
  induction l generalizing s with
  | nil => cases h; exact hs
  | cons a rest ih =>
      rw [List.foldlM_cons] at h
      obtain ⟨s', hs', h⟩ := Fault.bind_eq_ok_iff.1 h
      exact ih h (hstep a List.mem_cons_self s s' hs hs')
        fun b hb => hstep b (List.mem_cons_of_mem a hb)

/-- A loop whose steps succeed succeeds. -/
theorem foldlM_isOk (I : σ → Prop) {f : σ → α → Except Fault σ} {l : List α} {s : σ} (hs : I s)
    (hstep : ∀ a ∈ l, ∀ s, I s → ∃ s', f s a = .ok s' ∧ I s') :
    ∃ r, l.foldlM f s = .ok r ∧ I r := by
  induction l generalizing s with
  | nil => exact ⟨s, rfl, hs⟩
  | cons a rest ih =>
      obtain ⟨s', hs', hI⟩ := hstep a List.mem_cons_self s hs
      obtain ⟨r, hr, hI'⟩ := ih hI fun b hb => hstep b (List.mem_cons_of_mem a hb)
      refine ⟨r, ?_, hI'⟩
      rw [List.foldlM_cons]
      exact Fault.bind_eq_ok_iff.2 ⟨s', hs', hr⟩

/-- Two loops are the same if their steps are, as long as a property holds that the steps keep. -/
theorem foldlM_congr (I : σ → Prop) {f g : σ → α → Except Fault σ} {l : List α} {s : σ} (hs : I s)
    (h : ∀ a ∈ l, ∀ s, I s → g s a = f s a ∧ ∀ s', f s a = .ok s' → I s') :
    l.foldlM g s = l.foldlM f s := by
  induction l generalizing s with
  | nil => rfl
  | cons a rest ih =>
      obtain ⟨hsame, hkeeps⟩ := h a List.mem_cons_self s hs
      rw [List.foldlM_cons, List.foldlM_cons, hsame]
      cases hstep : f s a with
      | error fault => rfl
      | ok s' => exact ih (hkeeps s' hstep) fun b hb => h b (List.mem_cons_of_mem a hb)

/-- Every step of a loop that succeeds has succeeded. -/
theorem exists_step {f : σ → α → Except Fault σ} {l : List α} {s r : σ}
    (h : l.foldlM f s = .ok r) {a : α} (ha : a ∈ l) : ∃ t t', f t a = .ok t' := by
  induction l generalizing s with
  | nil => cases ha
  | cons b rest ih =>
      rw [List.foldlM_cons] at h
      obtain ⟨s', hs', h⟩ := Fault.bind_eq_ok_iff.1 h
      rcases List.mem_cons.1 ha with rfl | ha
      · exact ⟨s, s', hs'⟩
      · exact ih h ha

/-- A loop that fails has failed at some entry. -/
theorem exists_step_of_error {f : σ → α → Except Fault σ} {l : List α} {s : σ} {fault : Fault}
    (h : l.foldlM f s = .error fault) : ∃ a ∈ l, ∃ t, f t a = .error fault := by
  induction l generalizing s with
  | nil => cases h
  | cons a rest ih =>
      rw [List.foldlM_cons] at h
      rcases Fault.bind_eq_error_iff.1 h with hfirst | ⟨s', _, h⟩
      · exact ⟨a, List.mem_cons_self, s, hfirst⟩
      · obtain ⟨b, hb, hfails⟩ := ih h
        exact ⟨b, List.mem_cons_of_mem a hb, hfails⟩

/-- A check of every entry of a list succeeds exactly if each of them passes. -/
theorem forM_eq_ok_iff {f : α → Except Fault Unit} {l : List α} :
    l.forM f = .ok () ↔ ∀ a ∈ l, f a = .ok () := by
  induction l with
  | nil => exact ⟨fun _ => by simp, fun _ => rfl⟩
  | cons a rest ih =>
      rw [show (a :: rest).forM f = (f a >>= fun _ => rest.forM f) from rfl,
        Fault.bind_eq_ok_iff, List.forall_mem_cons]
      constructor
      · rintro ⟨_, ha, hrest⟩
        exact ⟨ha, ih.1 hrest⟩
      · rintro ⟨ha, hrest⟩
        exact ⟨(), ha, ih.2 hrest⟩

/-- A list is mapped exactly if each of its entries is. -/
theorem mapM_eq_ok_iff {f : α → Except Fault β} {l : List α} {r : List β} :
    l.mapM f = .ok r ↔ List.Forall₂ (fun a b => f a = .ok b) l r := by
  induction l generalizing r with
  | nil =>
      rw [List.mapM_nil]
      constructor
      · intro h; cases h; exact .nil
      · intro h; cases h; rfl
  | cons a rest ih =>
      rw [List.mapM_cons]
      constructor
      · intro h
        obtain ⟨b, hb, h⟩ := Fault.bind_eq_ok_iff.1 h
        obtain ⟨bs, hbs, h⟩ := Fault.bind_eq_ok_iff.1 h
        cases h
        exact .cons hb (ih.1 hbs)
      · intro h
        cases h with
        | cons hb hbs =>
            refine Fault.bind_eq_ok_iff.2 ⟨_, hb, Fault.bind_eq_ok_iff.2 ⟨_, ih.2 hbs, rfl⟩⟩

/-- A list is mapped to something exactly if each of its entries is. -/
theorem mapM_isOk_iff {f : α → Except Fault β} {l : List α} :
    (∃ r, l.mapM f = .ok r) ↔ ∀ a ∈ l, ∃ b, f a = .ok b := by
  induction l with
  | nil => exact ⟨fun _ => by simp, fun _ => ⟨[], rfl⟩⟩
  | cons a rest ih =>
      rw [List.forall_mem_cons, ← ih, List.mapM_cons]
      constructor
      · rintro ⟨r, h⟩
        obtain ⟨b, hb, h⟩ := Fault.bind_eq_ok_iff.1 h
        obtain ⟨bs, hbs, _⟩ := Fault.bind_eq_ok_iff.1 h
        exact ⟨⟨b, hb⟩, bs, hbs⟩
      · rintro ⟨⟨b, hb⟩, bs, hbs⟩
        rw [hb, hbs]
        exact ⟨b :: bs, rfl⟩

/-- Entries that are all mapped without failure. -/
theorem mapM_eq_map {f : α → Except Fault β} {g : α → β} {l : List α}
    (h : ∀ a ∈ l, f a = .ok (g a)) : l.mapM f = .ok (l.map g) := by
  induction l with
  | nil => rfl
  | cons a rest ih =>
      rw [List.mapM_cons, h a List.mem_cons_self, ih fun b hb => h b (List.mem_cons_of_mem a hb)]
      rfl

/-- Entries in all of which something is found. -/
theorem mapM_eq_some_map {f : α → Option β} {g : α → β} {l : List α}
    (h : ∀ a ∈ l, f a = some (g a)) : l.mapM f = some (l.map g) := by
  induction l with
  | nil => rfl
  | cons a rest ih =>
      rw [List.mapM_cons, h a List.mem_cons_self, ih fun b hb => h b (List.mem_cons_of_mem a hb)]
      rfl

/-- Every result of a list that is mapped is that of an entry. -/
theorem exists_of_mem_mapM {f : α → Except Fault β} {l : List α} {r : List β}
    (h : l.mapM f = .ok r) {b : β} (hb : b ∈ r) : ∃ a ∈ l, f a = .ok b := by
  have hall := mapM_eq_ok_iff.1 h
  clear h
  induction hall with
  | nil => cases hb
  | cons hfirst _ ih =>
      rcases List.mem_cons.1 hb with rfl | hb
      · exact ⟨_, List.mem_cons_self, hfirst⟩
      · obtain ⟨a, ha, hab⟩ := ih hb
        exact ⟨a, List.mem_cons_of_mem _ ha, hab⟩

/-- Two lists, the entries of the second mapped to functions of the results of the first. -/
theorem mapM_map_result₂ {γ δ : Type} {f : α → Except Fault β} {g : δ → Except Fault γ} {φ : β → γ}
    {l : List α} {k : List δ} (h : List.Forall₂ (fun a b => g b = φ <$> f a) l k) :
    k.mapM g = List.map φ <$> l.mapM f := by
  induction h with
  | nil => rfl
  | @cons a b l k hab _ ih =>
      rw [List.mapM_cons, List.mapM_cons, hab, ih]
      cases f a with
      | error fault => rfl
      | ok _ => cases l.mapM f <;> rfl

/-- Two lists, the entries of the second mapped to the results of the first. -/
theorem mapM_congr₂ {δ : Type} {f : α → Except Fault β} {g : δ → Except Fault β} {l : List α}
    {k : List δ} (h : List.Forall₂ (fun a b => g b = f a) l k) : k.mapM g = l.mapM f := by
  induction h with
  | nil => rfl
  | cons hab _ ih => rw [List.mapM_cons, List.mapM_cons, hab, ih]

/-- A list whose entries are mapped to functions of other results. -/
theorem mapM_map_result {γ : Type} {f : α → Except Fault β} {g : α → Except Fault γ} {φ : β → γ}
    {l : List α} (h : ∀ a ∈ l, g a = φ <$> f a) : l.mapM g = List.map φ <$> l.mapM f :=
  mapM_map_result₂ (List.forall₂_same.2 h)

/-- A list is not mapped exactly if an entry is not, the entries in front of which are. -/
theorem mapM_eq_error_iff {f : α → Except Fault β} {l : List α} {fault : Fault} :
    l.mapM f = .error fault ↔ ∃ before a after mapped, l = before ++ a :: after ∧
      List.Forall₂ (fun a b => f a = .ok b) before mapped ∧ f a = .error fault := by
  constructor
  · intro h
    induction l with
    | nil => cases h
    | cons a rest ih =>
        rw [List.mapM_cons] at h
        rcases Fault.bind_eq_error_iff.1 h with hfirst | ⟨b, hb, h⟩
        · exact ⟨[], a, rest, [], rfl, .nil, hfirst⟩
        · rcases Fault.bind_eq_error_iff.1 h with hrest | ⟨_, _, h⟩
          · obtain ⟨before, c, after, mapped, rfl, hbefore, hc⟩ := ih hrest
            exact ⟨a :: before, c, after, b :: mapped, rfl, .cons hb hbefore, hc⟩
          · cases h
  · rintro ⟨before, a, after, mapped, rfl, hbefore, ha⟩
    induction hbefore with
    | nil => rw [List.nil_append, List.mapM_cons, ha]; rfl
    | cons hb _ ih => rw [List.cons_append, List.mapM_cons, hb, ih]; rfl

/-- A list that is not mapped has an entry that is not. -/
theorem exists_of_mapM_eq_error {f : α → Except Fault β} {l : List α} {fault : Fault}
    (h : l.mapM f = .error fault) : ∃ a ∈ l, f a = .error fault := by
  obtain ⟨before, a, after, _, rfl, _, ha⟩ := mapM_eq_error_iff.1 h
  exact ⟨a, List.mem_append_right _ List.mem_cons_self, ha⟩

/-- If all entries that are not mapped fail in the same way, a list with such an entry does. -/
theorem mapM_eq_error {f : α → Except Fault β} {l : List α} {fault : Fault}
    (hall : ∀ a ∈ l, (∃ b, f a = .ok b) ∨ f a = .error fault)
    (hsome : ∃ a ∈ l, f a = .error fault) : l.mapM f = .error fault := by
  induction l with
  | nil => obtain ⟨a, ha, _⟩ := hsome; cases ha
  | cons a rest ih =>
      rw [List.mapM_cons]
      rcases hall a List.mem_cons_self with ⟨b, hb⟩ | hfirst
      · -- the failure lies behind the first entry
        have hlater : ∃ c ∈ rest, f c = .error fault := by
          obtain ⟨c, hc, hfails⟩ := hsome
          rcases List.mem_cons.1 hc with rfl | hc
          · rw [hb] at hfails
            cases hfails
          · exact ⟨c, hc, hfails⟩
        rw [hb, ih (fun c hc => hall c (List.mem_cons_of_mem a hc)) hlater]
        rfl
      · rw [hfirst]
        rfl

/-! ### Actions on a state -/

/-- An action goes on from where its first part ends. -/
theorem bind_of_ok {τ : Type} {x : EStateM Fault σ α} {f : α → EStateM Fault σ τ} {a : α}
    {s s' : σ} (h : x s = .ok a s') : (x >>= f) s = f a s' := by
  simp only [bind, EStateM.bind, h]

/-- An action that succeeds has two parts that do. -/
theorem exists_of_bind_eq_ok {τ : Type} {x : EStateM Fault σ α} {f : α → EStateM Fault σ τ}
    {s r : σ} {b : τ} (h : (x >>= f) s = .ok b r) :
    ∃ a t, x s = .ok a t ∧ f a t = .ok b r := by
  simp only [bind, EStateM.bind] at h
  cases hx : x s with
  | ok a t => rw [hx] at h; exact ⟨a, t, rfl, h⟩
  | error fault t => rw [hx] at h; cases h

theorem get_bind {f : σ → EStateM Fault σ β} {s : σ} : (get >>= f) s = f s s := rfl

theorem modify_bind {f : σ → σ} {g : PUnit → EStateM Fault σ β} {s : σ} :
    (modify f >>= g) s = g ⟨⟩ (f s) := rfl

/-- A loop goes on from where its first step ends. -/
theorem forM_cons_of_ok {f : α → EStateM Fault σ Unit} {a : α} {rest : List α} {s s' : σ}
    (h : f a s = .ok () s') : (a :: rest).forM f s = rest.forM f s' := by
  rw [List.forM_eq_forM, List.forM_cons]
  exact bind_of_ok h

/-- A loop goes on from where its first part ends. -/
theorem forM_append_of_ok {f : α → EStateM Fault σ Unit} {l rest : List α} {s s' : σ}
    (h : l.forM f s = .ok () s') : (l ++ rest).forM f s = rest.forM f s' := by
  rw [List.forM_eq_forM, List.forM_append]
  exact bind_of_ok h

/-- Rounds that each lead from one state to the next. -/
theorem forM_rounds {f : α → EStateM Fault σ Unit} {round : Nat → List α} {s : Nat → σ}
    {n : Nat} (h : ∀ m < n, (round m).forM f (s m) = .ok () (s (m + 1))) :
    ((List.range n).flatMap round).forM f (s 0) = .ok () (s n) := by
  induction n with
  | zero => rfl
  | succ n ih =>
      rw [List.range_succ, List.flatMap_append, List.flatMap_singleton,
        forM_append_of_ok (ih fun m hm => h m (Nat.lt_succ_of_lt hm))]
      exact h n (Nat.lt_succ_self n)

end Loop

end Breadboard
