import Breadboard.Assembly.Linking
import Breadboard.Proofs.Assembly.Building
import Breadboard.Proofs.Assembly.Layout

/-!
**Assemblies that are built side by side.**

Until an assembly is linked, its calls look at the slots of its circuits only, and at the places of
its circuits only to change them.  So two assemblies whose circuits have the same slots, and whose
places are changed alike, stay alike under every call, and every call has the same outcome on both.

Main definitions:

* `Assembly.Likeness` — in which circuits and places two assemblies may differ;
* `Assembly.Likeness.Related` — assemblies that differ only in these;
* `Assembly.Likeness.Parallel` — calls with the same outcome on such assemblies.

Main results:

* `Assembly.Likeness.parallel_add`, `Assembly.Likeness.parallel_addAll`,
  `Assembly.Likeness.parallel_addCopies` — adding circuits that are alike;
* `Assembly.Likeness.parallel_perform` — **a call that does not arrange circuits has the same
  outcome on both**;
* `Assembly.link_eq_of_blocks` — **assemblies that are laid out alike are linked to the same
  circuit**.
-/

set_option autoImplicit false
set_option relaxedAutoImplicit false

namespace Breadboard

namespace Assembly

theorem answer_ok_bind {α β : Type} (v : α) (f : α → AssemblyM β) :
    (answer (.ok v) >>= f) = f v := rfl

/-- In which circuits and places two assemblies may differ. -/
structure Likeness where
  /-- Circuits that may stand for each other under a name. -/
  circuits : String → Circuit → Circuit → Prop
  /-- Places that may stand for each other. -/
  positioners : Positioner → Positioner → Prop
  refl : ∀ (name : String) (c : Circuit), circuits name c c
  slots : ∀ {name : String} {c d : Circuit}, circuits name c d →
    ∀ side, d.slots side = c.slots side
  noteAdded : ∀ {p q : Positioner}, positioners p q → ∀ name,
    positioners (p.noteAdded name) (q.noteAdded name)

namespace Likeness

variable (L : Likeness)

/-- Entries of the same name with circuits that are alike. -/
def Entry (s t : String × Circuit) : Prop := t.1 = s.1 ∧ L.circuits s.1 s.2 t.2

/-- The assemblies differ only in circuits and places that are alike. -/
def Related (a b : Assembly) : Prop :=
  ∃ schemes positioner, List.Forall₂ L.Entry a.schemes schemes
    ∧ L.positioners a.positioner positioner
    ∧ b = { a with schemes := schemes, positioner := positioner }

theorem Related.consumed_eq {L : Likeness} {a b : Assembly} (h : L.Related a b) :
    b.consumed = a.consumed := by
  obtain ⟨_, _, _, _, rfl⟩ := h
  rfl

/-- Neither is a circuit, for the same reason, or both are, and alike. -/
def Offers (name : String) (f g : Fragment) : Prop :=
  (∃ fault, f.circuit? = .error fault ∧ g.circuit? = .error fault)
    ∨ ∃ c d, f.circuit? = .ok c ∧ g.circuit? = .ok d ∧ L.circuits name c d

/-- The outcomes of two calls are the same, and leave assemblies that are alike. -/
inductive Agrees {α : Type} :
    EStateM.Result Fault Assembly α → EStateM.Result Fault Assembly α → Prop where
  | ok (v : α) {a b : Assembly} (h : L.Related a b) : Agrees (.ok v a) (.ok v b)
  | error (fault : Fault) {a b : Assembly} (h : L.Related a b) :
      Agrees (.error fault a) (.error fault b)

/-- Two calls have the same outcome on assemblies that are alike. -/
def Parallel {α : Type} (x y : AssemblyM α) : Prop :=
  ∀ a b, L.Related a b → L.Agrees (x a) (y b)

variable {L}

theorem Agrees.final {α : Type} {x y : AssemblyM α} {a b : Assembly} (h : L.Agrees (x a) (y b)) :
    L.Related (final x a) (final y b) := by
  unfold Assembly.final
  generalize x a = r, y b = r' at h
  cases h with
  | ok _ h => exact h
  | error _ h => exact h

/-! ### The rules -/

namespace Parallel

variable {α β : Type}

theorem pure (v : α) : L.Parallel (pure v) (pure v) := by
  intro a b h
  exact .ok v h

theorem throw (fault : Fault) : L.Parallel (throw fault : AssemblyM α) (throw fault) := by
  intro a b h
  exact .error fault h

theorem answer (r : Except Fault α) : L.Parallel (answer r) (answer r) := by
  cases r with
  | ok v => exact pure v
  | error fault => exact throw fault

/-- Calls that only change the assembly. -/
theorem modify {f : Assembly → Assembly} (h : ∀ a b, L.Related a b → L.Related (f a) (f b)) :
    L.Parallel (modify f : AssemblyM Unit) (modify f) := by
  intro a b hab
  exact .ok () (h a b hab)

/-- One call after the other. -/
theorem bind {x y : AssemblyM α} {f g : α → AssemblyM β} (hx : L.Parallel x y)
    (hf : ∀ v, L.Parallel (f v) (g v)) : L.Parallel (x >>= f) (y >>= g) := by
  intro a b hab
  have hfirst := hx a b hab
  show L.Agrees (EStateM.bind x f a) (EStateM.bind y g b)
  simp only [EStateM.bind]
  generalize x a = r, y b = r' at hfirst
  cases hfirst with
  | ok v h => exact hf v _ _ h
  | error fault h => exact .error fault h

/-- Calls that look at the assembly first. -/
theorem get {f g : Assembly → AssemblyM β}
    (hf : ∀ a b, L.Related a b → L.Agrees (f a a) (g b b)) :
    L.Parallel (MonadState.get >>= f) (MonadState.get >>= g) := hf

/-- The same call for every entry of a list. -/
theorem forM {f g : α → AssemblyM Unit} {l : List α} (hf : ∀ v ∈ l, L.Parallel (f v) (g v)) :
    L.Parallel (l.forM f) (l.forM g) := by
  induction l with
  | nil => exact pure ()
  | cons v rest ih =>
      refine bind (hf v List.mem_cons_self) fun _ => ih ?_
      intro w hw
      exact hf w (List.mem_cons_of_mem v hw)

/-- Calls for the entries of two lists side by side, with an answer for each. -/
theorem mapM {γ : Type} {f : α → AssemblyM β} {g : γ → AssemblyM β} {l : List α} {m : List γ}
    (h : List.Forall₂ (fun v w => L.Parallel (f v) (g w)) l m) :
    L.Parallel (l.mapM f) (m.mapM g) := by
  induction h with
  | nil => exact pure []
  | cons hfirst _ ih =>
      rw [List.mapM_cons, List.mapM_cons]
      exact bind hfirst fun v => bind ih fun vs => pure (v :: vs)

theorem ensureOpen : L.Parallel ensureOpen ensureOpen := by
  intro a b hab
  have hconsumed : b.consumed = a.consumed := by
    obtain ⟨schemes, positioner, _, _, rfl⟩ := hab
    rfl
  cases h : a.consumed with
  | true =>
      rw [ensureOpen_of_consumed h, ensureOpen_of_consumed (hconsumed.trans h)]
      exact .error _ hab
  | false =>
      rw [ensureOpen_of_open h, ensureOpen_of_open (hconsumed.trans h)]
      exact .ok () hab

end Parallel

/-! ### Calls that add circuits -/

theorem names_eq {schemes schemes' : Keyed Circuit} (h : List.Forall₂ L.Entry schemes schemes') :
    Keyed.names schemes' = Keyed.names schemes := by
  induction h with
  | nil => rfl
  | cons hfirst _ ih => exact congrArg₂ List.cons hfirst.1 ih

theorem offers_self (name : String) (f : Fragment) : L.Offers name f f := by
  cases hf : f.circuit? with
  | error fault => exact .inl ⟨fault, hf, hf⟩
  | ok c => exact .inr ⟨c, c, hf, hf, L.refl name c⟩

/-- Circuits that are alike are added under the same name. -/
theorem parallel_add {name : String} {f g : Fragment} (h : L.Offers name f g) :
    L.Parallel (add name f) (add name g) := by
  refine Parallel.bind Parallel.ensureOpen fun _ => ?_
  rcases h with ⟨fault, hf, hg⟩ | ⟨c, d, hf, hg, hcd⟩
  · rw [hf, hg]
    exact Parallel.throw fault
  · rw [hf, hg, answer_ok_bind, answer_ok_bind]
    refine Parallel.bind (Parallel.answer (checkName name "Scheme")) fun _ => ?_
    refine Parallel.get ?_
    rintro a b ⟨schemes, positioner, hschemes, hpositioner, rfl⟩
    have hhas : Keyed.has name schemes = Keyed.has name a.schemes := by
      rw [Bool.eq_iff_iff, Keyed.has_iff, Keyed.has_iff, names_eq hschemes]
    simp only [hhas]
    split
    · exact .error _ ⟨schemes, positioner, hschemes, hpositioner, rfl⟩
    · refine .ok () ⟨schemes ++ [(name, d)], positioner.noteAdded name, ?_,
        L.noteAdded hpositioner name, rfl⟩
      exact List.rel_append hschemes (.cons ⟨rfl, hcd⟩ .nil)

theorem parallel_addOrReport {item item' : String × Fragment} (hname : item'.1 = item.1)
    (h : L.Offers item.1 item.2 item'.2) : L.Parallel (addOrReport item) (addOrReport item') := by
  intro a b hab
  have hadd := parallel_add h a b hab
  simp only [addOrReport, hname]
  generalize add item.1 item.2 a = r, add item.1 item'.2 b = r' at hadd
  cases hadd with
  | ok _ h => exact .ok none h
  | error fault h =>
      simp only []
      split
      · exact .ok (some fault) h
      · exact .error fault h

/-- Lists of circuits that are alike, entry by entry. -/
theorem parallel_addAll {items items' : List (String × Fragment)}
    (h : List.Forall₂ (fun s t => t.1 = s.1 ∧ L.Offers s.1 s.2 t.2) items items') :
    L.Parallel (addAll items) (addAll items') := by
  refine Parallel.bind (Parallel.mapM (h.imp fun s t hst => ?_)) fun reports => ?_
  · exact parallel_addOrReport hst.1 hst.2
  · dsimp only
    split
    · exact Parallel.pure ()
    · exact Parallel.throw _

/-- Copies of circuits that are alike. -/
theorem parallel_addCopies (names : List String) {f g : Fragment}
    (h : (∃ fault, f.circuit? = .error fault ∧ g.circuit? = .error fault)
      ∨ ∃ c d, f.circuit? = .ok c ∧ g.circuit? = .ok d ∧ ∀ name, L.circuits name c d) :
    L.Parallel (addCopies names f) (addCopies names g) := by
  unfold addCopies
  rcases h with ⟨fault, hf, hg⟩ | ⟨c, d, hf, hg, hcd⟩
  · rw [hf, hg]
    exact Parallel.throw fault
  · rw [hf, hg, answer_ok_bind, answer_ok_bind]
    refine parallel_addAll ?_
    rw [List.forall₂_map_left_iff, List.forall₂_map_right_iff, List.forall₂_same]
    intro name _
    exact ⟨rfl, .inr ⟨c, d, rfl, rfl, hcd name⟩⟩

/-! ### Calls that neither add nor arrange circuits -/

/-- Calls that change an open assembly in the same way. -/
theorem parallel_change {f : Assembly → Assembly}
    (h : ∀ a b, L.Related a b → L.Related (f a) (f b)) :
    L.Parallel (do ensureOpen; modify f) (do ensureOpen; modify f) :=
  Parallel.bind Parallel.ensureOpen fun _ => Parallel.modify h

theorem parallel_setCheck (enabled : Bool) : L.Parallel (setCheck enabled) (setCheck enabled) := by
  refine parallel_change ?_
  rintro a b ⟨schemes, positioner, hschemes, hpositioner, rfl⟩
  exact ⟨schemes, positioner, hschemes, hpositioner, rfl⟩

theorem parallel_connect (source target : String) (wiring : Wiring) :
    L.Parallel (connect source target wiring) (connect source target wiring) := by
  refine parallel_change ?_
  rintro a b ⟨schemes, positioner, hschemes, hpositioner, rfl⟩
  exact ⟨schemes, positioner, hschemes, hpositioner, rfl⟩

theorem parallel_plan (side : Side) (p : SlotPlan) :
    L.Parallel (plan side p) (plan side p) := by
  refine Parallel.bind Parallel.ensureOpen fun _ => ?_
  refine Parallel.bind (Parallel.answer _) fun _ => Parallel.get ?_
  rintro a b ⟨schemes, positioner, hschemes, hpositioner, rfl⟩
  have hplans : plans { a with schemes := schemes, positioner := positioner } side
      = a.plans side := by
    cases side <;> rfl
  simp only [hplans]
  split
  · exact .error _ ⟨schemes, positioner, hschemes, hpositioner, rfl⟩
  · refine .ok () ⟨schemes, positioner, ?_, ?_, by cases side <;> rfl⟩
    · cases side <;> exact hschemes
    · cases side <;> exact hpositioner

/-- Under a name both assemblies have no circuit, or circuits that are alike. -/
theorem find?_entry {schemes schemes' : Keyed Circuit}
    (h : List.Forall₂ L.Entry schemes schemes') (name : String) :
    (Keyed.find? name schemes = none ∧ Keyed.find? name schemes' = none)
      ∨ ∃ c d, Keyed.find? name schemes = some c ∧ Keyed.find? name schemes' = some d
        ∧ L.circuits name c d := by
  induction h with
  | nil => exact .inl ⟨rfl, rfl⟩
  | @cons s t _ _ hfirst _ ih =>
      obtain ⟨n, c⟩ := s
      obtain ⟨m, d⟩ := t
      obtain ⟨rfl, hcd⟩ : m = n ∧ L.circuits n c d := hfirst
      rw [Keyed.find?_cons, Keyed.find?_cons]
      split
      · rename_i hname
        subst hname
        exact .inr ⟨c, d, rfl, rfl, hcd⟩
      · exact ih

/-- A path leads to the same slot and sector of circuits that are alike. -/
theorem forwardTarget_eq {a b : Assembly} (h : L.Related a b) (side : Side) (path : String) :
    b.forwardTarget side path = a.forwardTarget side path := by
  obtain ⟨schemes, positioner, hschemes, _, rfl⟩ := h
  simp only [forwardTarget]
  rcases find?_entry hschemes (Path.splitFirst path).1 with ⟨hc, hd⟩ | ⟨c, d, hc, hd, hcd⟩
  · rw [hc, hd]
  · rw [hc, hd]
    simp only [L.slots hcd]

theorem parallel_forward (side : Side) (name path : String) (kind : Option String) :
    L.Parallel (forward side name path kind) (forward side name path kind) := by
  refine Parallel.bind Parallel.ensureOpen fun _ => Parallel.bind (Parallel.answer _) fun _ => ?_
  refine Parallel.get fun a b hab => ?_
  rw [forwardTarget_eq hab]
  cases a.forwardTarget side path with
  | error flaw => exact Parallel.throw _ a b hab
  | ok found => exact Parallel.bind (Parallel.answer _) (fun p => parallel_plan side p) a b hab

/-- **A call that does not arrange circuits has the same outcome on assemblies that are alike.** -/
theorem parallel_perform {call : Call} (h : call.arranges = false) :
    L.Parallel call.perform call.perform := by
  cases call with
  | setCheck enabled => exact parallel_setCheck enabled
  | add name fragment => exact parallel_add (offers_self name fragment)
  | addAll items =>
      refine parallel_addAll (List.forall₂_same.2 fun item _ => ?_)
      exact ⟨rfl, offers_self item.1 item.2⟩
  | addCopies names fragment =>
      refine parallel_addCopies names ?_
      cases hf : fragment.circuit? with
      | error fault => exact .inl ⟨fault, rfl, rfl⟩
      | ok c => exact .inr ⟨c, c, rfl, rfl, fun name => L.refl name c⟩
  | connect source target wiring => exact parallel_connect source target wiring
  | connectAll sources targets wiring =>
      exact Parallel.forM fun source _ => Parallel.forM fun target _ =>
        parallel_connect source target wiring
  | plan side slot => exact parallel_plan side slot
  | forward side name path kind => exact parallel_forward side name path kind
  | place | rotate | placeLast | rotateLast => cases h

end Likeness

/-! ### Linking -/

/-- The blocks of an assembly's circuits at their places. -/
def blocks (a : Assembly) : Except Fault (List Block) := do
  layOut (← a.positioner.arrange (Keyed.names a.schemes)) 0 a.schemes

/-- **Assemblies that are laid out alike are linked to the same circuit**, as nothing else depends
on their circuits and places. -/
theorem link_eq_of_blocks {a : Assembly} {schemes : Keyed Circuit} {positioner : Positioner}
    (h : blocks { a with schemes := schemes, positioner := positioner } = a.blocks) :
    link { a with schemes := schemes, positioner := positioner } = a.link := by
  unfold blocks at h
  simp only [link]
  rw [← bind_assoc, ← bind_assoc, h]

/-- The circuits of an assembly are laid out in the same way as others of the same slots that are
relocated alike. -/
theorem layOut_congr {places places' : Keyed (Point × Turn)} {schemes schemes' : Keyed Circuit}
    (h : List.Forall₂ (fun s t : String × Circuit => t.1 = s.1
      ∧ (∀ side, t.2.slots side = s.2.slots side)
      ∧ ∀ offset, t.2.relocate offset (seat places' s.1).1 (seat places' s.1).2
        = s.2.relocate offset (seat places s.1).1 (seat places s.1).2) schemes schemes')
    (base : Int) : layOut places' base schemes' = layOut places base schemes := by
  induction h generalizing base with
  | nil => rfl
  | @cons s t _ _ hfirst _ ih =>
      obtain ⟨name, c⟩ := s
      obtain ⟨m, d⟩ := t
      obtain ⟨rfl, hslots, hunits⟩ := hfirst
      have hunits := hunits base
      have hinputs : d.inputs = c.inputs := hslots .input
      have houtputs : d.outputs = c.outputs := hslots .output
      simp only [seat] at hunits
      simp only [layOut, hunits, ih, hinputs, houtputs]

end Assembly

end Breadboard
