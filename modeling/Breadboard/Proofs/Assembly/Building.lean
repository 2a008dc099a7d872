import Breadboard.Assembly.Basic
import Breadboard.Proofs.Circuit.InRange

/-!
**Assemblies under construction.**

An assembly is built by calls, and a call that fails leaves an assembly behind as well.  However the
calls follow one another, names stay different and the slots of the added circuits lead to units.

Main definitions:

* `Assembly.final` — the assembly that a call leaves behind, whether it fails or not;
* `Assembly.outcome` — the answer of a call;
* `Assembly.Keeps` — a call that keeps a property;
* `Assembly.Holds`, `Assembly.Sound` — names are different, and all circuits have a property, or
  have slots that lead to units;
* `Assembly.refusal?` — why a name is refused where some names are in use;
* `Assembly.Call`, `Assembly.run` — the calls that build an assembly, one after the other;
* `Assembly.Call.Change` — what a call may change.

Main results:

* `Assembly.add_eq` — **a circuit is added exactly if its name is not refused**;
* `Assembly.final_add`, `Assembly.final_plan` — what adding a circuit and planning a slot leave
  behind;
* `Assembly.Call.keeps_of_change` — **a call keeps what its changes keep**;
* `Assembly.Call.keeps_holds` — every call keeps a property of all circuits;
* `Assembly.holds_run`, `Assembly.sound_run` — **whatever is built has it, and is sound**.
-/

set_option autoImplicit false
set_option relaxedAutoImplicit false

namespace Breadboard

namespace Assembly

/-! ### Calls that keep a property -/

/-- The assembly that a call leaves behind, whether it fails or not. -/
def final {α : Type} (act : AssemblyM α) (a : Assembly) : Assembly :=
  match act a with
  | .ok _ a' => a'
  | .error _ a' => a'

/-- The answer of a call. -/
def outcome {α : Type} (act : AssemblyM α) (a : Assembly) : Except Fault α :=
  match act a with
  | .ok v _ => .ok v
  | .error fault _ => .error fault

section Final

variable {α β : Type} {x : AssemblyM α} {f : α → AssemblyM β} {a a' : Assembly}

theorem final_bind_of_ok {v : α} (h : x a = .ok v a') : final (x >>= f) a = final (f v) a' := by
  simp only [final, bind, EStateM.bind, h]

theorem final_bind_of_error {fault : Fault} (h : x a = .error fault a') :
    final (x >>= f) a = a' := by
  simp only [final, bind, EStateM.bind, h]

theorem ensureOpen_of_open (h : a.consumed = false) : ensureOpen a = .ok () a := by
  show (if a.consumed = true then _ else _ : AssemblyM Unit) a = _
  rw [h]
  rfl

theorem ensureOpen_of_consumed (h : a.consumed = true) : ensureOpen a = .error .consumed a := by
  show (if a.consumed = true then _ else _ : AssemblyM Unit) a = _
  rw [h]
  rfl

theorem answer_ok (v : α) (a : Assembly) : answer (.ok v) a = .ok v a := rfl

/-- A call that needs an open assembly. -/
theorem ensureOpen_bind_eq_ok_iff {act : AssemblyM α} {v : α} :
    (ensureOpen >>= fun _ => act) a = .ok v a' ↔ a.consumed = false ∧ act a = .ok v a' := by
  cases hopen : a.consumed with
  | true =>
      simp only [bind, EStateM.bind, ensureOpen_of_consumed hopen]
      exact ⟨nofun, fun h => nomatch h.1⟩
  | false =>
      rw [Loop.bind_of_ok (ensureOpen_of_open hopen)]
      exact ⟨fun h => ⟨rfl, h⟩, fun h => h.2⟩

/-- A call that goes on with an answer. -/
theorem answer_bind_eq_ok_iff {r : Except Fault α} {v : β} :
    (answer r >>= f) a = .ok v a' ↔ ∃ w, r = .ok w ∧ f w a = .ok v a' := by
  cases r with
  | error fault => exact ⟨nofun, fun ⟨_, h, _⟩ => nomatch h⟩
  | ok w =>
      rw [Loop.bind_of_ok (answer_ok w a)]
      refine ⟨fun h => ⟨w, rfl, h⟩, ?_⟩
      rintro ⟨w', hw, h⟩
      cases hw
      exact h

end Final

/-- A call that keeps a property of the assembly. -/
def Keeps {α : Type} (I : Assembly → Prop) (act : AssemblyM α) : Prop :=
  ∀ a, I a → I (final act a)

namespace Keeps

variable {α β : Type} {I : Assembly → Prop}

theorem pure (v : α) : Keeps I (Pure.pure v : AssemblyM α) := fun _ ha => ha

theorem throw (fault : Fault) : Keeps I (throw fault : AssemblyM α) := fun _ ha => ha

theorem answer (r : Except Fault α) : Keeps I (answer r) := by
  cases r with
  | ok v => exact pure v
  | error fault => exact throw fault

/-- A call that only changes the assembly. -/
theorem modify {f : Assembly → Assembly} (h : ∀ a, I a → I (f a)) :
    Keeps I (modify f : AssemblyM Unit) := h

/-- One call after the other. -/
theorem bind {x : AssemblyM α} {f : α → AssemblyM β} (hx : Keeps I x) (hf : ∀ v, Keeps I (f v)) :
    Keeps I (x >>= f) := by
  intro a ha
  have hfinal := hx a ha
  cases h : x a with
  | ok v a' =>
      rw [final_bind_of_ok h]
      simp only [final, h] at hfinal
      exact hf v a' hfinal
  | error fault a' =>
      rw [final_bind_of_error h]
      simp only [final, h] at hfinal
      exact hfinal

/-- A call that looks at the assembly first. -/
theorem get {f : Assembly → AssemblyM β} (hf : ∀ a, I a → I (final (f a) a)) :
    Keeps I (MonadState.get >>= f) := hf

/-- The same call for every entry of a list. -/
theorem forM {f : α → AssemblyM Unit} {l : List α} (hf : ∀ v ∈ l, Keeps I (f v)) :
    Keeps I (l.forM f) := by
  induction l with
  | nil => exact pure ()
  | cons v rest ih =>
      exact bind (hf v List.mem_cons_self) fun _ => ih fun w hw => hf w (List.mem_cons_of_mem v hw)

/-- The same call for every entry of a list, with an answer for each. -/
theorem mapM {f : α → AssemblyM β} {l : List α} (hf : ∀ v ∈ l, Keeps I (f v)) :
    Keeps I (l.mapM f) := by
  induction l with
  | nil => exact pure []
  | cons v rest ih =>
      rw [List.mapM_cons]
      refine bind (hf v List.mem_cons_self) fun w => ?_
      exact bind (ih fun u hu => hf u (List.mem_cons_of_mem v hu)) fun ws => pure (w :: ws)

theorem ensureOpen : Keeps I ensureOpen := by
  refine get fun a ha => ?_
  cases a.consumed <;> exact ha

end Keeps

end Assembly

/-! ### Properties of all circuits -/

/-- What is offered is no circuit without the property. -/
def Fragment.Yields (P : Circuit → Prop) (f : Fragment) : Prop := ∀ c, f.circuit? = .ok c → P c

theorem Fragment.yields_circuit {P : Circuit → Prop} {c : Circuit} (h : P c) :
    (Fragment.circuit c).Yields P := by
  intro d hd
  cases hd
  exact h

/-- What is offered is no circuit with slots that address other units than its own. -/
def Fragment.Sound : Fragment → Prop
  | .circuit c => c.SlotsInRange
  | .device _ => True
  | .other => True

theorem Fragment.Sound.yields {f : Fragment} (hf : f.Sound) : f.Yields Circuit.SlotsInRange := by
  intro c h
  cases f with
  | circuit d => cases h; exact hf
  | device d => exact Circuit.slotsInRange_of_build h
  | other => cases h

namespace Assembly

/-- No two circuits have the same name, and the slots of each circuit address its units only. -/
structure Sound (a : Assembly) : Prop where
  names : (Keyed.names a.schemes).Nodup
  slots : ∀ s ∈ a.schemes, s.2.SlotsInRange

/-- No two circuits have the same name, and all of them have a property. -/
structure Holds (P : Circuit → Prop) (a : Assembly) : Prop where
  names : (Keyed.names a.schemes).Nodup
  circuits : ∀ s ∈ a.schemes, P s.2

theorem sound_iff_holds {a : Assembly} : a.Sound ↔ a.Holds Circuit.SlotsInRange :=
  ⟨fun h => ⟨h.names, h.slots⟩, fun h => ⟨h.names, h.circuits⟩⟩

section Holds

variable {P : Circuit → Prop}

theorem holds_empty (positioner : Positioner) (config : CompileConfig) :
    (empty positioner config).Holds P :=
  ⟨List.nodup_nil, by simp [empty]⟩

/-- Only the circuits matter. -/
theorem Holds.of_schemes_eq {a b : Assembly} (ha : a.Holds P) (h : b.schemes = a.schemes) :
    b.Holds P :=
  ⟨by rw [h]; exact ha.names, by rw [h]; exact ha.circuits⟩

/-- One more circuit of a new name. -/
theorem Holds.concat {a b : Assembly} (ha : a.Holds P) {name : String} {c : Circuit} (hc : P c)
    (hnew : name ∉ Keyed.names a.schemes) (h : b.schemes = a.schemes ++ [(name, c)]) :
    b.Holds P := by
  refine ⟨?_, ?_⟩
  · rw [h, Keyed.names, List.map_append, List.map_singleton, ← List.concat_eq_append,
      List.nodup_concat]
    exact ⟨hnew, ha.names⟩
  · rw [h]
    intro s hs
    rcases List.mem_append.1 hs with hold | hlast
    · exact ha.circuits s hold
    · rw [List.mem_singleton.1 hlast]
      exact hc

end Holds

/-! ### Calls that add circuits -/

section Add

variable {name : String}

theorem checkName_eq_ok_iff (what : String) :
    checkName name what = .ok () ↔ name ≠ "" ∧ Path.separator ∉ name.toList := by
  rw [checkName, Path.hasSeparator, ← List.contains_iff_mem]
  split
  · simp_all
  · split <;> simp_all

/-- Why a name is refused where the names `taken` are in use, if it is. -/
def refusal? (taken : List String) (name : String) : Option Fault :=
  if name = "" then some (.invalidName name "Scheme" .empty)
  else if Path.separator ∈ name.toList then some (.invalidName name "Scheme" .separator)
  else if name ∈ taken then some (.schemeNameTaken name)
  else none

theorem refusal?_eq_none_iff {taken : List String} :
    refusal? taken name = none ↔ name ≠ "" ∧ Path.separator ∉ name.toList ∧ name ∉ taken := by
  rw [refusal?]
  split
  · simp_all
  · split
    · simp_all
    · split <;> simp_all

/-- An assembly with one more circuit. -/
def withCircuit (a : Assembly) (name : String) (c : Circuit) : Assembly :=
  { a with schemes := a.schemes ++ [(name, c)], positioner := a.positioner.noteAdded name }

/-- **A circuit is added exactly if its name is not refused.** -/
theorem add_eq {a : Assembly} {fragment : Fragment} {c : Circuit} (name : String)
    (hopen : a.consumed = false) (hc : fragment.circuit? = .ok c) :
    add name fragment a = match refusal? (Keyed.names a.schemes) name with
      | none => .ok () (a.withCircuit name c)
      | some fault => .error fault a := by
  rw [add, Loop.bind_of_ok (ensureOpen_of_open hopen), hc, Loop.bind_of_ok (answer_ok c a)]
  -- the checks of the name in their order
  by_cases hempty : name = ""
  · simp only [checkName, refusal?, if_pos hempty]
    rfl
  · by_cases hseparator : Path.separator ∈ name.toList
    · have hhas : Path.hasSeparator name = true := List.contains_iff_mem.2 hseparator
      simp only [checkName, refusal?, if_neg hempty, if_pos hseparator, if_pos hhas]
      rfl
    · have hname : answer (checkName name "Scheme") a = .ok () a := by
        rw [(checkName_eq_ok_iff "Scheme").2 ⟨hempty, hseparator⟩]
        rfl
      rw [Loop.bind_of_ok hname, Loop.get_bind]
      by_cases htaken : name ∈ Keyed.names a.schemes
      · rw [if_pos (Keyed.has_iff.2 htaken), refusal?, if_neg hempty, if_neg hseparator,
          if_pos htaken]
        rfl
      · rw [if_neg (mt Keyed.has_iff.1 htaken), refusal?_eq_none_iff.2 ⟨hempty, hseparator, htaken⟩]
        rfl

end Add

/-- What adding a circuit leaves behind: the assembly as it was, or with a circuit of a new name at
the end. -/
theorem final_add (name : String) (fragment : Fragment) (a : Assembly) :
    final (add name fragment) a = a ∨ ∃ c, fragment.circuit? = .ok c
      ∧ name ∉ Keyed.names a.schemes
      ∧ final (add name fragment) a = { a with
          schemes := a.schemes ++ [(name, c)]
          positioner := a.positioner.noteAdded name } := by
  cases hopen : a.consumed with
  | true => exact .inl (final_bind_of_error (ensureOpen_of_consumed hopen))
  | false =>
      cases hc : fragment.circuit? with
      | error fault =>
          left
          rw [add, final_bind_of_ok (ensureOpen_of_open hopen), hc]
          rfl
      | ok c =>
          rw [final, add_eq name hopen hc]
          cases hname : refusal? (Keyed.names a.schemes) name with
          | some fault => exact .inl rfl
          | none => exact .inr ⟨c, rfl, (refusal?_eq_none_iff.1 hname).2.2, by rw [← hopen]; rfl⟩

/-- Adding circuits keeps what adding each of them does. -/
theorem keeps_addAll {I : Assembly → Prop} {items : List (String × Fragment)}
    (h : ∀ item ∈ items, Keeps I (add item.1 item.2)) : Keeps I (addAll items) := by
  refine Keeps.bind (Keeps.mapM fun item hitem => ?_) fun reports => ?_
  · -- a refusal is caught, and the assembly it leaves behind stays
    intro a ha
    have hfinal : I (final (add item.1 item.2) a) := h item hitem a ha
    simp only [final, addOrReport] at hfinal ⊢
    cases hadd : add item.1 item.2 a with
    | ok _ a' => rw [hadd] at hfinal; exact hfinal
    | error fault a' =>
        rw [hadd] at hfinal
        simp only []
        cases isRefusal fault <;> exact hfinal
  · dsimp only
    split
    · exact Keeps.pure ()
    · exact Keeps.throw _

/-- Adding copies of a circuit keeps what adding each of them does. -/
theorem keeps_addCopies {I : Assembly → Prop} {names : List String} {fragment : Fragment}
    (h : ∀ c, fragment.circuit? = .ok c → ∀ name, Keeps I (add name (.circuit c))) :
    Keeps I (addCopies names fragment) := by
  intro a ha
  unfold addCopies
  cases hc : fragment.circuit? with
  | error fault => exact ha
  | ok c =>
      rw [final_bind_of_ok (answer_ok c a)]
      refine keeps_addAll (fun item hitem => ?_) a ha
      obtain ⟨name, _, rfl⟩ := List.mem_map.1 hitem
      exact h c hc name

/-! ### Calls that do not add circuits -/

section Others

variable {I : Assembly → Prop}

/-- A call that only changes an open assembly. -/
theorem keeps_change {f : Assembly → Assembly} (h : ∀ a, I a → I (f a)) :
    Keeps I (do ensureOpen; modify f) :=
  Keeps.bind Keeps.ensureOpen fun _ => Keeps.modify h

/-- A call that gives or changes places. -/
theorem keeps_arrangeBy (h : ∀ a p, I a → I { a with positioner := .manual p })
    (f : Placements → Except Fault Placements) : Keeps I (arrangeBy f) := by
  refine Keeps.bind (Keeps.get fun a ha => Keeps.answer _ a ha) fun p => ?_
  exact Keeps.bind (Keeps.answer _) fun q => Keeps.modify fun a ha => h a q ha

/-- One more plan is behind those of its side, and the other side has the plans that it had. -/
theorem plans_pushPlan (a : Assembly) (side other : Side) (p : SlotPlan) :
    (a.pushPlan side p).plans other
      = if side = other then a.plans other ++ [p] else a.plans other := by
  cases side <;> cases other <;> rfl

/-- What holds of all plans and of one more. -/
theorem forall_plans_pushPlan {P : SlotPlan → Prop} {a : Assembly} {side : Side} {p : SlotPlan}
    (h : ∀ side, ∀ q ∈ a.plans side, P q) (hp : P p) (other : Side) :
    ∀ q ∈ (a.pushPlan side p).plans other, P q := by
  intro q hq
  rw [plans_pushPlan] at hq
  split at hq
  · rcases List.mem_append.1 hq with hold | hlast
    · exact h other q hold
    · rw [List.mem_singleton.1 hlast]
      exact hp
  · exact h other q hq

/-- Plans of different names are of different names with one more of a new name. -/
theorem nodup_names_pushPlan {a : Assembly} {side : Side} {p : SlotPlan}
    (h : ∀ side, ((a.plans side).map SlotPlan.name).Nodup)
    (hnew : p.name ∉ (a.plans side).map SlotPlan.name) (other : Side) :
    (((a.pushPlan side p).plans other).map SlotPlan.name).Nodup := by
  rw [plans_pushPlan]
  split
  · rename_i hside
    obtain rfl := hside
    rw [List.map_append, List.map_singleton, ← List.concat_eq_append, List.nodup_concat]
    exact ⟨hnew, h side⟩
  · exact h other

/-- What planning a slot leaves behind: the assembly as it was, or with one more plan, of a new
name. -/
theorem final_plan (side : Side) (p : SlotPlan) (a : Assembly) :
    final (plan side p) a = a
      ∨ p.name ∉ (a.plans side).map SlotPlan.name ∧ final (plan side p) a = a.pushPlan side p := by
  unfold plan
  cases hopen : a.consumed with
  | true => exact .inl (final_bind_of_error (ensureOpen_of_consumed hopen))
  | false =>
      rw [final_bind_of_ok (ensureOpen_of_open hopen)]
      cases hname : checkName p.name (side.title ++ " slot") with
      | error fault => exact .inl rfl
      | ok _ =>
          show final (if _ then _ else _ : AssemblyM Unit) a = a
            ∨ _ ∧ final (if _ then _ else _ : AssemblyM Unit) a = _
          split
          · exact .inl rfl
          · rename_i hnew
            refine .inr ⟨fun hmem => hnew ?_, rfl⟩
            obtain ⟨q, hq, hqp⟩ := List.mem_map.1 hmem
            exact List.any_eq_true.2 ⟨q, hq, beq_iff_eq.2 hqp⟩

/-- Planning a slot keeps what one more plan of a new name keeps. -/
theorem keeps_plan {side : Side} {p : SlotPlan}
    (h : ∀ a, I a → p.name ∉ (a.plans side).map SlotPlan.name → I (a.pushPlan side p)) :
    Keeps I (plan side p) := by
  intro a ha
  rcases final_plan side p a with hsame | ⟨hnew, hmore⟩
  · rw [hsame]
    exact ha
  · rw [hmore]
    exact h a ha hnew

/-- Passing a slot on keeps what one more plan of a new name keeps that passes a slot on. -/
theorem keeps_forward {side : Side} {name path : String} {kind : Option String}
    (h : ∀ a parts slot sector p, I a → a.forwardTarget side path = .ok (parts, slot, sector) →
      forwardPlan name kind parts slot sector = .ok p →
      p.name ∉ (a.plans side).map SlotPlan.name → I (a.pushPlan side p)) :
    Keeps I (forward side name path kind) := by
  refine Keeps.bind Keeps.ensureOpen fun _ => Keeps.bind (Keeps.answer _) fun _ => ?_
  refine Keeps.get fun a ha => ?_
  cases htarget : a.forwardTarget side path with
  | error flaw => exact ha
  | ok found =>
      obtain ⟨parts, slot, sector⟩ := found
      simp only []
      cases hplan : forwardPlan name kind parts slot sector with
      | error fault => exact ha
      | ok p =>
          rw [final_bind_of_ok (answer_ok p a)]
          rcases final_plan side p a with hsame | ⟨hnew, hmore⟩
          · rw [hsame]
            exact ha
          · rw [hmore]
            exact h a parts slot sector p ha htarget hplan hnew

end Others

/-! ### Building by calls -/

/-- A call that builds an assembly. -/
inductive Call where
  | setCheck (enabled : Bool)
  | add (name : String) (fragment : Fragment)
  | addAll (items : List (String × Fragment))
  | addCopies (names : List String) (fragment : Fragment)
  | connect (source target : String) (wiring : Wiring)
  | connectAll (sources targets : List String) (wiring : Wiring)
  | place (name : String) (point : Point)
  | rotate (name : String) (turn : Turn)
  | placeLast (point : Point)
  | rotateLast (turn : Turn)
  | plan (side : Side) (slot : SlotPlan)
  | forward (side : Side) (name path : String) (kind : Option String)

namespace Call

/-- What a call does. -/
def perform : Call → AssemblyM Unit
  | .setCheck enabled => Assembly.setCheck enabled
  | .add name fragment => Assembly.add name fragment
  | .addAll items => Assembly.addAll items
  | .addCopies names fragment => Assembly.addCopies names fragment
  | .connect source target wiring => Assembly.connect source target wiring
  | .connectAll sources targets wiring => Assembly.connectAll sources targets wiring
  | .place name point => Assembly.place name point
  | .rotate name turn => Assembly.rotate name turn
  | .placeLast point => Assembly.placeLast point
  | .rotateLast turn => Assembly.rotateLast turn
  | .plan side slot => Assembly.plan side slot
  | .forward side name path kind => Assembly.forward side name path kind

/-- What a call offers to add. -/
def fragments : Call → List Fragment
  | .add _ fragment => [fragment]
  | .addAll items => items.map Prod.snd
  | .addCopies _ fragment => [fragment]
  | _ => []

/-- The wirings by which a call connects paths. -/
def wirings : Call → List Wiring
  | .connect _ _ wiring => [wiring]
  | .connectAll _ _ wiring => [wiring]
  | _ => []

/-- A call that gives or changes places. -/
def arranges : Call → Bool
  | .place .. => true
  | .rotate .. => true
  | .placeLast .. => true
  | .rotateLast .. => true
  | _ => false

/-- What a call may change.  A call that fails makes no change, or only some of several. -/
inductive Change : Call → Assembly → Assembly → Prop where
  | checked {enabled : Bool} (a : Assembly) : Change (.setCheck enabled) a
      { a with config := { a.config with checkOverflow := enabled } }
  | added {call : Call} (a : Assembly) {f : Fragment} {name : String} {c : Circuit}
      (offered : f ∈ call.fragments) (yields : f.circuit? = .ok c)
      (new : name ∉ Keyed.names a.schemes) : Change call a { a with
        schemes := a.schemes ++ [(name, c)]
        positioner := a.positioner.noteAdded name }
  | connected {call : Call} (a : Assembly) {link : Link} (used : link.wiring ∈ call.wirings) :
      Change call a { a with links := a.links ++ [link] }
  | arranged {call : Call} (a : Assembly) (p : Placements) (arranges : call.arranges = true) :
      Change call a { a with positioner := .manual p }
  | planned {side : Side} {p : SlotPlan} (a : Assembly)
      (new : p.name ∉ (a.plans side).map SlotPlan.name) :
      Change (.plan side p) a (a.pushPlan side p)
  | forwarded {side : Side} {name path : String} {kind : Option String} {parts : Path} {slot : Slot}
      {sector : Sector} {p : SlotPlan} (a : Assembly)
      (found : a.forwardTarget side path = .ok (parts, slot, sector))
      (made : forwardPlan name kind parts slot sector = .ok p)
      (new : p.name ∉ (a.plans side).map SlotPlan.name) :
      Change (.forward side name path kind) a (a.pushPlan side p)

/-- **A call keeps what all changes keep that it may make**, whether it fails or not. -/
theorem keeps_of_change {I : Assembly → Prop} {call : Call}
    (h : ∀ a b, I a → call.Change a b → I b) : Keeps I call.perform := by
  have hadd {name : String} {f g : Fragment} (hoffered : g ∈ call.fragments)
      (hyields : ∀ c, f.circuit? = .ok c → g.circuit? = .ok c) :
      Keeps I (Assembly.add name f) := by
    intro a ha
    rcases final_add name f a with hsame | ⟨c, hc, hnew, hadded⟩
    · rw [hsame]
      exact ha
    · rw [hadded]
      exact h a _ ha (.added a hoffered (hyields c hc) hnew)
  have hconnect {source target : String} {wiring : Wiring} (hused : wiring ∈ call.wirings) :
      Keeps I (Assembly.connect source target wiring) := by
    have hlink : (⟨source, target, wiring⟩ : Link).wiring ∈ call.wirings := hused
    exact keeps_change fun a ha => h a _ ha (.connected a hlink)
  have harrange (harranges : call.arranges = true) (f : Placements → Except Fault Placements) :
      Keeps I (arrangeBy f) :=
    keeps_arrangeBy (fun a p ha => h a _ ha (.arranged a p harranges)) f
  cases call with
  | setCheck enabled => exact keeps_change fun a ha => h a _ ha (.checked a)
  | add name fragment => exact hadd List.mem_cons_self fun _ hc => hc
  | addAll items =>
      exact keeps_addAll fun item hitem => hadd (List.mem_map_of_mem hitem) fun _ hc => hc
  | addCopies names fragment =>
      refine keeps_addCopies fun c hc name => hadd List.mem_cons_self fun d hd => ?_
      rwa [← Except.ok.inj hd]
  | connect source target wiring => exact hconnect List.mem_cons_self
  | connectAll sources targets wiring =>
      exact Keeps.forM fun source _ => Keeps.forM fun target _ => hconnect List.mem_cons_self
  | place name point => exact harrange rfl _
  | rotate name turn => exact harrange rfl _
  | placeLast point => exact harrange rfl _
  | rotateLast turn => exact harrange rfl _
  | plan side slot => exact keeps_plan fun a ha hnew => h a _ ha (.planned a hnew)
  | forward side name path kind =>
      exact keeps_forward fun a _ _ _ _ ha hfound hmade hnew =>
        h a _ ha (.forwarded a hfound hmade hnew)

/-- Every call keeps a property of all circuits, whether it fails or not, if it offers none without
it. -/
theorem keeps_holds {P : Circuit → Prop} {call : Call} (h : ∀ f ∈ call.fragments, f.Yields P) :
    Keeps (Holds P) call.perform := by
  refine keeps_of_change fun a b ha hchange => ?_
  cases hchange with
  | checked => exact ha.of_schemes_eq rfl
  | added _ hoffered hyields hnew => exact ha.concat (h _ hoffered _ hyields) hnew rfl
  | connected => exact ha.of_schemes_eq rfl
  | arranged => exact ha.of_schemes_eq rfl
  | @planned side => exact ha.of_schemes_eq (by cases side <;> rfl)
  | @forwarded side => exact ha.of_schemes_eq (by cases side <;> rfl)

end Call

/-- The assembly that is left after calls, some of which may have failed. -/
def run (calls : List Call) (a : Assembly) : Assembly :=
  calls.foldl (fun a call => final call.perform a) a

theorem run_append (calls later : List Call) (a : Assembly) :
    run (calls ++ later) a = run later (run calls a) :=
  List.foldl_append

/-- What every call keeps is kept by all of them. -/
theorem run_of_keeps {I : Assembly → Prop} {calls : List Call} {a : Assembly} (ha : I a)
    (h : ∀ call ∈ calls, Keeps I call.perform) : I (run calls a) :=
  List.foldlRecOn calls _ ha fun a ha call hcall => h call hcall a ha

/-- **Whatever is built has a property in all circuits**, if no circuit without it is offered. -/
theorem holds_run {P : Circuit → Prop} {calls : List Call} {a : Assembly} (ha : a.Holds P)
    (h : ∀ call ∈ calls, ∀ f ∈ call.fragments, f.Yields P) : (run calls a).Holds P :=
  run_of_keeps ha fun call hcall => Call.keeps_holds (h call hcall)

/-- **Whatever is built is sound**, if no circuit is offered whose slots address other units than
its own. -/
theorem sound_run {calls : List Call} {a : Assembly} (ha : a.Sound)
    (h : ∀ call ∈ calls, ∀ f ∈ call.fragments, f.Sound) : (run calls a).Sound :=
  sound_iff_holds.2 (holds_run (sound_iff_holds.1 ha) fun call hcall f hf =>
    (h call hcall f hf).yields)

end Assembly

end Breadboard
