import Breadboard.Proofs.Assembly.Forwarding
import Breadboard.Proofs.Grid.Storage

/-!
**Planned slots that can be held.**

The units behind the points of a slot are held in an array over its box, so there can be one, and
then there can be one over each of its sectors.  A slot that is passed on is planned with the size
of such a sector.  So the only plans that may ask for an array that cannot be are those that are
given to an assembly as such.

Main definitions:

* `Slot.Stored`, `Circuit.Stored` — there can be arrays over the slots, and sectors lie within them;
* `Assembly.Held` — there can be an array over each planned slot, or it has points;
* `Assembly.Call.Storable` — calls that offer such circuits and plan such slots only.

Main results:

* `Slot.Stored.sector` — there can be an array over each sector;
* `Assembly.Call.keeps_stored` — every storable call keeps it that planned slots can be held;
* `Assembly.held_run` — **whatever is built by storable calls has planned slots that can be held**.
-/

set_option autoImplicit false
set_option relaxedAutoImplicit false

namespace Breadboard

/-- The units behind the points of the slot can be held, and its sectors lie within it. -/
structure Slot.Stored (s : Slot) : Prop where
  held : (⟨s.size, s.ids.isSize⟩ : Size).Holdable
  fit : ∀ sub ∈ s.sectors, Point.boxFits sub.2.pos sub.2.size s.size = true

/-- There can be an array over each sector of a slot. -/
theorem Slot.Stored.sector {s : Slot} (h : s.Stored) {name : String} {sector : Sector}
    (hsector : s.getSector? name = some sector) {size : Size}
    (hsize : size.extents = sector.size) : size.Holdable := by
  have hwithin : sector.size.x ≤ s.size.x ∧ sector.size.y ≤ s.size.y
      ∧ sector.size.z ≤ s.size.z := by
    unfold getSector? at hsector
    split at hsector
    · cases hsector
      exact ⟨Int.le_refl _, Int.le_refl _, Int.le_refl _⟩
    · have hfits := h.fit _ (Keyed.mem_of_find?_eq_some hsector)
      simp only [Point.boxFits_iff] at hfits
      omega
  rw [← hsize] at hwithin
  exact h.held.mono hwithin.1 hwithin.2.1 hwithin.2.2

/-- All slots of the circuit can be held. -/
def Circuit.Stored (c : Circuit) : Prop := ∀ side, ∀ s ∈ c.slots side, s.Stored

/-- A single device has slots of one point. -/
theorem Circuit.stored_ofDevice {d : Device} {c : Circuit} (h : ofDevice d = .ok c) : c.Stored := by
  obtain ⟨_, hinputs, houtputs, _⟩ := build_eq_ok h
  have hpoint (needed : Bool) : ∀ s ∈ deviceSlots needed, s.Stored := by
    intro s hs
    unfold deviceSlots at hs
    split at hs
    · rw [List.mem_singleton.1 hs]
      exact ⟨Size.holdable_one, by simp [Slot.point]⟩
    · cases hs
  intro side
  cases side with
  | input =>
      rw [Circuit.slots, hinputs]
      exact hpoint _
  | output =>
      rw [Circuit.slots, houtputs]
      exact hpoint _

namespace Assembly

/-- There can be an array over each planned slot, or it has points. -/
def Held (a : Assembly) : Prop := ∀ side, ∀ p ∈ a.plans side, p.size.HoldableIfEmpty

/-- A call that offers circuits whose slots can be held, and plans only such slots. -/
structure Call.Storable (call : Call) : Prop where
  circuits : ∀ f ∈ call.fragments, f.Yields Circuit.Stored
  plans : ∀ side p, call = .plan side p → p.size.HoldableIfEmpty

/-- All slots of the circuits of an assembly can be held, and all its planned slots. -/
structure Stored (a : Assembly) : Prop where
  circuits : a.Holds Circuit.Stored
  held : a.Held

theorem stored_empty (positioner : Positioner) (config : CompileConfig) :
    (empty positioner config).Stored :=
  ⟨holds_empty positioner config, fun side p hp => by cases side <;> cases hp⟩

/-- The plan that passes a slot on has the size of a sector of a slot that can be held. -/
theorem Stored.held_forwarded {a : Assembly} (h : a.Stored) {side : Side} {name path : String}
    {kind : Option String} {parts : Path} {slot : Slot} {sector : Sector} {p : SlotPlan}
    (hfound : a.forwardTarget side path = .ok (parts, slot, sector))
    (hmade : forwardPlan name kind parts slot sector = .ok p) : p.size.Holdable := by
  obtain ⟨_, _, c, hc, hslot, hsector⟩ := (forwardTarget_eq_ok_iff h.circuits.names).1 hfound
  have hstored := h.circuits.circuits _ hc side slot (List.mem_of_find?_eq_some hslot)
  exact hstored.sector hsector (forwardPlan_eq_ok hmade).2.2.1

/-- **Every storable call keeps it that planned slots can be held**, whether it fails or not. -/
theorem Call.keeps_stored {call : Call} (h : call.Storable) : Keeps Stored call.perform := by
  refine keeps_of_change fun a b ha hchange => ?_
  cases hchange with
  | checked => exact ⟨ha.circuits.of_schemes_eq rfl, ha.held⟩
  | added _ hoffered hyields hnew =>
      exact ⟨ha.circuits.concat (h.circuits _ hoffered _ hyields) hnew rfl, ha.held⟩
  | connected => exact ⟨ha.circuits.of_schemes_eq rfl, ha.held⟩
  | arranged => exact ⟨ha.circuits.of_schemes_eq rfl, ha.held⟩
  | @planned side =>
      exact ⟨ha.circuits.of_schemes_eq (by cases side <;> rfl),
        forall_plans_pushPlan ha.held (h.plans _ _ rfl)⟩
  | @forwarded side _ _ _ _ _ _ _ _ hfound hmade =>
      exact ⟨ha.circuits.of_schemes_eq (by cases side <;> rfl),
        forall_plans_pushPlan ha.held (ha.held_forwarded hfound hmade).ifEmpty⟩

/-- **Whatever is built by storable calls has planned slots that can be held.** -/
theorem held_run {calls : List Call} {a : Assembly} (ha : a.Stored)
    (h : ∀ call ∈ calls, call.Storable) : (run calls a).Held :=
  (run_of_keeps ha fun call hcall => Call.keeps_stored (h call hcall)).held

end Assembly

end Breadboard
