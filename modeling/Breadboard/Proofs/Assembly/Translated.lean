import Breadboard.Proofs.Assembly.Flattening
import Breadboard.Proofs.Assembly.SideBySide
import Breadboard.Proofs.Circuit.Cells

/-!
**Circuits that were moved before they are added.**

An assembly never looks at where the units of a circuit stand until it is linked, and then only at
where they stand relative to each other.  So if circuits are moved as a whole before they are added,
every call has the same outcome as before, and the assembly is compiled to the same circuit.

Main definitions:

* `Assembly.Shifted` — assemblies that differ only in where their circuits stand;
* `Assembly.Parallel` — calls with the same outcome on such assemblies;
* `Fragment.Shifted`, `Assembly.Call.Shifted` — what is offered was moved before.

Main results:

* `Assembly.Call.parallel_perform` — **a call has the same outcome if circuits were moved before**;
* `Assembly.shifted_run` — assemblies that are built side by side;
* `Assembly.link_shifted` — **they are linked to the same circuit**.
-/

set_option autoImplicit false
set_option relaxedAutoImplicit false

namespace Breadboard

/-! ### What is offered -/

/-- A unit that is moved by nothing stays. -/
theorem Element.translate_origin (e : Element) : e.translate .origin = e := by
  simp [translate, Point.add_def, Point.origin]

theorem Circuit.translate_origin (c : Circuit) : c.translate .origin = c := by
  simp [translate, funext Element.translate_origin]

/-- The second circuit is the first, moved as a whole. -/
def Circuit.Shifted (c d : Circuit) : Prop := ∃ v, d = c.translate v

/-- The slots of a circuit that was moved are the same. -/
theorem Circuit.Shifted.slots {c d : Circuit} (h : c.Shifted d) (side : Side) :
    d.slots side = c.slots side := by
  obtain ⟨v, rfl⟩ := h
  cases side <;> rfl

/-- What is offered second is what is offered first, moved as a whole if it is a circuit. -/
inductive Fragment.Shifted : Fragment → Fragment → Prop where
  | same (f : Fragment) : Shifted f f
  | moved {c d : Circuit} (h : c.Shifted d) : Shifted (.circuit c) (.circuit d)

/-- Neither is a circuit, for the same reason, or both are, the second moved as a whole. -/
theorem Fragment.Shifted.circuit? {f g : Fragment} (h : f.Shifted g) :
    (∃ fault, f.circuit? = .error fault ∧ g.circuit? = .error fault)
      ∨ ∃ c d, f.circuit? = .ok c ∧ g.circuit? = .ok d ∧ c.Shifted d := by
  cases h with
  | moved h => exact .inr ⟨_, _, rfl, rfl, h⟩
  | same f =>
      cases hf : f.circuit? with
      | error fault => exact .inl ⟨fault, rfl, rfl⟩
      | ok c => exact .inr ⟨c, c, rfl, rfl, .origin, c.translate_origin.symm⟩

namespace Assembly

/-! ### Calls on assemblies side by side -/

/-- Circuits of the same name, the second moved as a whole. -/
def ShiftedEntry (s t : String × Circuit) : Prop := t.1 = s.1 ∧ s.2.Shifted t.2

/-- The assemblies differ only in where their circuits stand. -/
def Shifted (a b : Assembly) : Prop :=
  ∃ schemes, List.Forall₂ ShiftedEntry a.schemes schemes ∧ b = { a with schemes := schemes }

/-- The outcomes of two calls are the same, and differ only in where circuits stand. -/
inductive Alike {α : Type} :
    EStateM.Result Fault Assembly α → EStateM.Result Fault Assembly α → Prop where
  | ok (v : α) {a b : Assembly} (h : a.Shifted b) : Alike (.ok v a) (.ok v b)
  | error (fault : Fault) {a b : Assembly} (h : a.Shifted b) : Alike (.error fault a) (.error fault b)

/-- Two calls have the same outcome on assemblies that differ only in where circuits stand. -/
def Parallel {α : Type} (x y : AssemblyM α) : Prop := ∀ a b, a.Shifted b → Alike (x a) (y b)

/-- Circuits that were moved as a whole, at the same places. -/
def moved : Likeness where
  circuits _ c d := c.Shifted d
  positioners p q := q = p
  refl _ c := ⟨.origin, c.translate_origin.symm⟩
  slots h side := h.slots side
  noteAdded h name := by rw [h]

theorem shifted_iff {a b : Assembly} : a.Shifted b ↔ moved.Related a b := by
  constructor
  · rintro ⟨schemes, hschemes, rfl⟩
    exact ⟨schemes, a.positioner, hschemes, rfl, rfl⟩
  · rintro ⟨schemes, _, hschemes, rfl, rfl⟩
    exact ⟨schemes, hschemes, rfl⟩

/-- Calls with the same outcome on assemblies that are alike. -/
theorem parallel_of_likeness {α : Type} {x y : AssemblyM α} (h : moved.Parallel x y) :
    Parallel x y := by
  intro a b hab
  have hagrees := h a b (shifted_iff.1 hab)
  generalize x a = r, y b = r' at hagrees
  cases hagrees with
  | ok v h => exact .ok v (shifted_iff.2 h)
  | error fault h => exact .error fault (shifted_iff.2 h)

/-- What is offered second was moved, if it is a circuit. -/
theorem offers_of_shifted {f g : Fragment} (h : f.Shifted g) (name : String) :
    moved.Offers name f g := h.circuit?

/-- Items of the same name, the second moved as a whole if it is a circuit. -/
def ShiftedItem (s t : String × Fragment) : Prop := t.1 = s.1 ∧ s.2.Shifted t.2

/-- Calls that change the places in the same way. -/
theorem parallel_arrangeBy (f : Placements → Except Fault Placements) :
    moved.Parallel (arrangeBy f) (arrangeBy f) := by
  have hplacements : moved.Parallel placements placements := by
    refine Likeness.Parallel.get ?_
    rintro a b ⟨schemes, _, hschemes, rfl, rfl⟩
    exact Likeness.Parallel.answer _ _ _ ⟨schemes, _, hschemes, rfl, rfl⟩
  refine .bind hplacements fun p => .bind (.answer (f p)) fun q => .modify ?_
  rintro a b ⟨schemes, _, hschemes, rfl, rfl⟩
  exact ⟨schemes, _, hschemes, rfl, rfl⟩

/-! ### Assemblies that are built side by side -/

namespace Call

/-- The same call, in which circuits may have been moved before they are offered. -/
inductive Shifted : Call → Call → Prop where
  | same (call : Call) : Shifted call call
  | add (name : String) {f g : Fragment} (h : f.Shifted g) : Shifted (.add name f) (.add name g)
  | addAll {items items' : List (String × Fragment)} (h : List.Forall₂ ShiftedItem items items') :
      Shifted (.addAll items) (.addAll items')
  | addCopies (names : List String) {f g : Fragment} (h : f.Shifted g) :
      Shifted (.addCopies names f) (.addCopies names g)

theorem parallel_self (call : Call) : moved.Parallel call.perform call.perform := by
  cases call with
  | place | rotate | placeLast | rotateLast => exact parallel_arrangeBy _
  | _ => exact Likeness.parallel_perform rfl

/-- **A call has the same outcome if circuits were moved before.** -/
theorem parallel_perform {call call' : Call} (h : call.Shifted call') :
    Parallel call.perform call'.perform := by
  refine parallel_of_likeness ?_
  cases h with
  | same call => exact parallel_self call
  | add name h => exact Likeness.parallel_add (offers_of_shifted h name)
  | addAll h =>
      exact Likeness.parallel_addAll (h.imp fun _ _ hst => ⟨hst.1, offers_of_shifted hst.2 _⟩)
  | addCopies names h =>
      refine Likeness.parallel_addCopies names ?_
      rcases h.circuit? with hfault | ⟨c, d, hf, hg, hcd⟩
      · exact .inl hfault
      · exact .inr ⟨c, d, hf, hg, fun _ => hcd⟩

end Call

/-- Assemblies that are built side by side differ only in where their circuits stand. -/
theorem shifted_run {calls calls' : List Call} (h : List.Forall₂ Call.Shifted calls calls')
    {a b : Assembly} (hab : a.Shifted b) : (run calls a).Shifted (run calls' b) := by
  induction h generalizing a b with
  | nil => exact hab
  | @cons call call' _ _ hfirst _ ih =>
      have hfinal : (final call.perform a).Shifted (final call'.perform b) := by
        have houtcome := Call.parallel_perform hfirst a b hab
        unfold final
        generalize call.perform a = r, call'.perform b = r' at houtcome
        cases houtcome with
        | ok _ h => exact h
        | error _ h => exact h
      exact ih hfinal

/-! ### Linking -/

/-- **Assemblies that differ only in where their circuits stand are linked to the same circuit.** -/
theorem link_shifted {a b : Assembly} (h : a.Shifted b) : b.link = a.link := by
  obtain ⟨schemes, hschemes, rfl⟩ := h
  refine link_eq_of_blocks ?_
  have hnames : Keyed.names schemes = Keyed.names a.schemes := moved.names_eq hschemes
  simp only [blocks, hnames]
  congr 1
  funext places
  refine layOut_congr (hschemes.imp fun s t hst => ?_) 0
  obtain ⟨hname, v, hmoved⟩ := hst
  refine ⟨hname, fun side => Circuit.Shifted.slots ⟨v, hmoved⟩ side, fun offset => ?_⟩
  rw [hmoved]
  exact Circuit.relocate_translate v s.2 offset _ _

/-- Compiling has the same outcome. -/
theorem parallel_compile : Parallel compile compile := by
  refine parallel_of_likeness ?_
  refine .bind .ensureOpen fun _ => .bind (.modify ?_) fun _ => ?_
  · rintro a b ⟨schemes, positioner, hschemes, hpositioner, rfl⟩
    exact ⟨schemes, positioner, hschemes, hpositioner, rfl⟩
  · refine Likeness.Parallel.get fun a b hab => ?_
    rw [link_shifted (shifted_iff.2 hab)]
    exact Likeness.Parallel.answer _ a b hab

end Assembly

end Breadboard
