import Breadboard.Draft.Step
import Breadboard.Proofs.Assembly.Flattening

/-!
**Refused steps.**

A step that fails leaves the assembly as it was: all its checks come before its one change.  So what
is asked afterwards is answered as if the step had not been taken, and refused steps can be left out
of a whole session.  Compiling is different: it closes the assembly even if it fails, and a closed
assembly refuses all that is asked of it, except new places for its circuits.

Main definitions:

* `Assembly.Reads`, `Assembly.Atomic` — an action changes nothing, or nothing if it fails;
* `Assembly.Request`, `Assembly.transcript`, `Assembly.after` — what is asked of an assembly, the
  answers, and the assembly that is left.

Main results:

* `Draft.Step.atomic_perform` — **a step that fails changes nothing**;
* `Assembly.transcript_kept` — **refused steps can be left out of a session**;
* `Assembly.closed_after_compile` — a session that compiles leaves a closed assembly;
* `Draft.Step.perform_of_closed` — a closed assembly refuses steps;
* `Assembly.refused_steps` — **all of this for every assembly and every session**.
-/

set_option autoImplicit false
set_option relaxedAutoImplicit false

namespace Breadboard

namespace Assembly

variable {α β : Type}

/-! ### Actions that change nothing -/

/-- The action changes nothing, whether it fails or not. -/
def Reads (act : AssemblyM α) : Prop := ∀ a, Keeps (· = a) act

/-- The action changes nothing if it fails. -/
def Atomic (act : AssemblyM α) : Prop := ∀ a a' fault, act a = .error fault a' → a' = a

namespace Reads

theorem answer (r : Except Fault α) : Reads (answer r) := fun _ => Keeps.answer r

theorem ensureOpen : Reads ensureOpen := fun _ => Keeps.ensureOpen

/-- One action after the other. -/
theorem bind {x : AssemblyM α} {f : α → AssemblyM β} (hx : Reads x) (hf : ∀ v, Reads (f v)) :
    Reads (x >>= f) := fun a => Keeps.bind (hx a) fun v => hf v a

/-- An action that looks at the assembly first. -/
theorem get {f : Assembly → AssemblyM β} (hf : ∀ a, Reads (f a)) : Reads (MonadState.get >>= f) :=
  fun a => Keeps.get fun b hb => hf b a b hb

theorem placements : Reads placements := get fun _ => answer _

/-- What is only read either fails, or what comes next starts where it started. -/
theorem bind_cases {x : AssemblyM α} (hx : Reads x) (f : α → AssemblyM β) (a : Assembly) :
    (∃ fault, (x >>= f) a = .error fault a) ∨ ∃ v, x a = .ok v a ∧ (x >>= f) a = f v a := by
  have hread : final x a = a := hx a a rfl
  simp only [Bind.bind, EStateM.bind]
  cases h : x a with
  | ok v b =>
      simp only [final, h] at hread
      exact .inr ⟨v, by rw [hread], by rw [hread]⟩
  | error fault b =>
      simp only [final, h] at hread
      exact .inl ⟨fault, by rw [hread]⟩

end Reads

namespace Atomic

theorem throw (fault : Fault) : Atomic (throw fault : AssemblyM α) := by
  intro a a' fault' h
  cases h
  rfl

/-- A change does not fail. -/
theorem modify (f : Assembly → Assembly) : Atomic (modify f : AssemblyM Unit) := by
  intro a a' fault h
  cases h

theorem set (b : Assembly) : Atomic (set b : AssemblyM Unit) := by
  intro a a' fault h
  cases h

/-- Whatever is only read may come first. -/
theorem bind {x : AssemblyM α} {f : α → AssemblyM β} (hx : Reads x) (hf : ∀ v, Atomic (f v)) :
    Atomic (x >>= f) := by
  intro a a' fault h
  rcases hx.bind_cases f a with ⟨other, hother⟩ | ⟨v, _, hnext⟩
  · rw [hother] at h
    cases h
    rfl
  · rw [hnext] at h
    exact hf v a a' fault h

theorem get {f : Assembly → AssemblyM β} (hf : ∀ a, Atomic (f a)) :
    Atomic (MonadState.get >>= f) := fun a => hf a a

end Atomic

/-! ### The steps -/

/-- A call whose one change comes behind the check that the assembly is open. -/
theorem atomic_change (f : Assembly → Assembly) : Atomic (do ensureOpen; modify f) :=
  .bind Reads.ensureOpen fun _ => .modify f

theorem atomic_add (name : String) (fragment : Fragment) : Atomic (add name fragment) := by
  refine .bind Reads.ensureOpen fun _ => .bind (Reads.answer _) fun circuit => ?_
  refine .bind (Reads.answer _) fun _ => .get fun a => ?_
  split
  · exact .throw _
  · exact .set _

theorem atomic_plan (side : Side) (p : SlotPlan) : Atomic (plan side p) := by
  refine .bind Reads.ensureOpen fun _ => .bind (Reads.answer _) fun _ => .get fun a => ?_
  split
  · exact .throw _
  · exact .set _

theorem atomic_forward (side : Side) (name path : String) (kind : Option String) :
    Atomic (forward side name path kind) := by
  refine .bind Reads.ensureOpen fun _ => .bind (Reads.answer _) fun _ => .get fun a => ?_
  split
  · exact .throw _
  · exact .bind (Reads.answer _) fun p => atomic_plan side p

theorem atomic_arrangeBy (f : Placements → Except Fault Placements) : Atomic (arrangeBy f) :=
  .bind Reads.placements fun _ => .bind (Reads.answer _) fun _ => .modify _

end Assembly

namespace Draft.Step

open Assembly

theorem reads_lastAdded : Reads lastAdded := .bind Reads.placements fun _ => Reads.answer _

theorem atomic_placeAt (name : String) (place : Json) : Atomic (placeAt name place) :=
  .bind Reads.placements fun _ => .bind (Reads.answer _) fun _ => atomic_arrangeBy _

theorem atomic_turnBy (name : String) (turn : Rotation) : Atomic (turnBy name turn) :=
  .bind Reads.placements fun _ => .bind (Reads.answer _) fun _ => atomic_arrangeBy _

/-- **A step that fails changes nothing.** -/
theorem atomic_perform (step : Step) : Atomic step.perform := by
  cases step with
  | setCheck enabled => exact atomic_change _
  | add name fragment => exact atomic_add name fragment
  | connect source target wiring => exact atomic_change _
  | dim source target marked => exact .bind (Reads.answer _) fun wiring => atomic_change _
  | plan side p => exact atomic_plan side p
  | forward side name path kind => exact atomic_forward side name path kind
  | place name p => exact atomic_placeAt name p
  | rotate name t => exact atomic_turnBy name t
  | placeLast p => exact .bind reads_lastAdded fun name => atomic_placeAt name p
  | rotateLast t => exact .bind reads_lastAdded fun name => atomic_turnBy name t

/-- A step is refused at once, or it is a call. -/
theorem perform_cases (step : Step) (a : Assembly) :
    (∃ fault, step.perform a = .error fault a)
      ∨ ∃ call : Call, step.perform a = call.perform a := by
  have hplace (name : String) (place : Json) : (∃ fault, placeAt name place a = .error fault a)
      ∨ ∃ call : Call, placeAt name place a = call.perform a := by
    rcases Reads.placements.bind_cases _ a with hfault | ⟨_, _, hnext⟩
    · exact .inl hfault
    · rw [placeAt, hnext]
      rcases (Reads.answer (Reading.point place)).bind_cases _ a with hfault | ⟨p, _, hnext⟩
      · exact .inl hfault
      · exact .inr ⟨.place name p, hnext⟩
  have hturn (name : String) (turn : Rotation) : (∃ fault, turnBy name turn a = .error fault a)
      ∨ ∃ call : Call, turnBy name turn a = call.perform a := by
    rcases Reads.placements.bind_cases _ a with hfault | ⟨_, _, hnext⟩
    · exact .inl hfault
    · rw [turnBy, hnext]
      rcases (Reads.answer turn.read).bind_cases _ a with hfault | ⟨t, _, hnext⟩
      · exact .inl hfault
      · exact .inr ⟨.rotate name t, hnext⟩
  cases step with
  | setCheck enabled => exact .inr ⟨.setCheck enabled, rfl⟩
  | add name fragment => exact .inr ⟨.add name fragment, rfl⟩
  | connect source target wiring => exact .inr ⟨.connect source target wiring, rfl⟩
  | dim source target marked =>
      rcases (Reads.answer (axes marked)).bind_cases _ a with hfault | ⟨wiring, _, hnext⟩
      · exact .inl hfault
      · exact .inr ⟨.connect source target wiring, hnext⟩
  | plan side p => exact .inr ⟨.plan side p, rfl⟩
  | forward side name path kind => exact .inr ⟨.forward side name path kind, rfl⟩
  | place name p => exact hplace name p
  | rotate name t => exact hturn name t
  | placeLast p =>
      rcases reads_lastAdded.bind_cases _ a with hfault | ⟨name, _, hnext⟩
      · exact .inl hfault
      · rw [perform, hnext]
        exact hplace name p
  | rotateLast t =>
      rcases reads_lastAdded.bind_cases _ a with hfault | ⟨name, _, hnext⟩
      · exact .inl hfault
      · rw [perform, hnext]
        exact hturn name t

/-- A closed assembly refuses every step but those that give or change places; a step along marked
axes has to mark three. -/
theorem perform_of_closed {step : Step} {a : Assembly} (hclosed : a.consumed = true)
    (hstep : step.ofPlaces = false)
    (haxes : ∀ source target marked, step = .dim source target marked →
      ∃ x y z, Reading.entries marked = .ok [x, y, z]) :
    step.perform a = .error .consumed a := by
  have hopen {β : Type} (f : Unit → AssemblyM β) : (ensureOpen >>= f) a = .error .consumed a := by
    simp only [bind, EStateM.bind, ensureOpen_of_consumed hclosed]
  cases step with
  | setCheck enabled => exact hopen _
  | add name fragment => exact hopen _
  | connect source target wiring => exact hopen _
  | dim source target marked =>
      obtain ⟨x, y, z, hentries⟩ := haxes source target marked rfl
      have hread : axes marked = .ok (.dim x.isTrue y.isTrue z.isTrue) := by
        rw [axes, hentries]
        rfl
      rw [perform, hread, Loop.bind_of_ok (answer_ok _ a)]
      exact hopen _
  | plan side p => exact hopen _
  | forward side name path kind => exact hopen _
  | place | rotate | placeLast | rotateLast => cases hstep

end Draft.Step

namespace Assembly

/-! ### Sessions -/

/-- What is asked of an assembly. -/
inductive Request where
  | step (step : Draft.Step)
  /-- Any other call, such as those for several circuits or connections at once. -/
  | call (call : Call)
  | compile

/-- The answer to a request: a circuit with its diagnostics if it was compiled. -/
abbrev Answer := Except Fault (Option (Circuit × Diagnostics))

namespace Request

/-- What a request does. -/
def perform : Request → AssemblyM (Option (Circuit × Diagnostics))
  | step s => do s.perform; pure none
  | call c => do c.perform; pure none
  | compile => do pure (some (← Assembly.compile))

end Request

/-- What is asked, with the answers. -/
def transcript : List Request → Assembly → List (Request × Answer)
  | [], _ => []
  | request :: rest, a =>
      (request, outcome request.perform a) :: transcript rest (final request.perform a)

/-- The assembly that is left after a session. -/
def after (requests : List Request) (a : Assembly) : Assembly :=
  requests.foldl (fun a request => final request.perform a) a

/-- The request is no step, or a step that was taken. -/
def isKept : Request × Answer → Bool
  | (.step _, .error _) => false
  | _ => true

/-- A step that is refused leaves the assembly as it was. -/
theorem final_of_not_isKept {request : Request} {a : Assembly}
    (h : isKept (request, outcome request.perform a) = false) : final request.perform a = a := by
  cases request with
  | call c => cases h
  | compile => cases h
  | step s =>
      cases hs : s.perform a with
      | error fault b =>
          have hperform : (Request.step s).perform a = .error fault b := by
            simp only [Request.perform, bind, EStateM.bind, hs]
          simp only [final, hperform]
          exact s.atomic_perform a b fault hs
      | ok _ b =>
          have hanswer : outcome (Request.step s).perform a = .ok none := by
            simp only [outcome, Request.perform, bind, EStateM.bind, hs, pure, EStateM.pure]
          rw [hanswer] at h
          cases h

/-- **Refused steps can be left out of a session**: all else is answered as before, and the same
assembly is left. -/
theorem transcript_kept (requests : List Request) (a : Assembly) :
    transcript (((transcript requests a).filter isKept).map Prod.fst) a
        = (transcript requests a).filter isKept
      ∧ after (((transcript requests a).filter isKept).map Prod.fst) a = after requests a := by
  induction requests generalizing a with
  | nil => exact ⟨rfl, rfl⟩
  | cons request rest ih =>
      rw [transcript]
      cases hkept : isKept (request, outcome request.perform a) with
      | true =>
          rw [List.filter_cons_of_pos hkept, List.map_cons]
          obtain ⟨htranscript, hafter⟩ := ih (final request.perform a)
          exact ⟨by rw [transcript, htranscript], hafter⟩
      | false =>
          rw [List.filter_cons_of_neg (by rw [hkept]; exact Bool.false_ne_true)]
          have hsame := final_of_not_isKept hkept
          have hafter : after (request :: rest) a = after rest a := by
            rw [after, List.foldl_cons, hsame]
            rfl
          rw [hafter, hsame]
          exact ih a

/-! ### After compiling -/

/-- No call opens a closed assembly again. -/
theorem keeps_closed (call : Call) : Keeps (fun a => a.consumed = true) call.perform := by
  refine Call.keeps_of_change fun a b ha hchange => ?_
  cases hchange with
  | checked | added | connected | arranged => exact ha
  | @planned side | @forwarded side => cases side <;> exact ha

/-- Wrapping the answer changes nothing. -/
theorem final_bind_pure {α β : Type} (x : AssemblyM α) (f : α → β) (a : Assembly) :
    final (x >>= fun v => pure (f v)) a = final x a := by
  simp only [final, bind, EStateM.bind]
  cases x a <;> rfl

/-- Compiling closes the assembly, whether it fails or not. -/
theorem consumed_final_compile (a : Assembly) : (final compile a).consumed = true := by
  cases hopen : a.consumed with
  | true =>
      rw [compile, final_bind_of_error (ensureOpen_of_consumed hopen)]
      exact hopen
  | false =>
      rw [compile, final_bind_of_ok (ensureOpen_of_open hopen)]
      exact Keeps.answer (I := fun b => b.consumed = true) _ { a with consumed := true } rfl

/-- Nothing that is asked of a closed assembly opens it again. -/
theorem keeps_closed_request (request : Request) :
    Keeps (fun a => a.consumed = true) request.perform := by
  cases request with
  | compile => exact Keeps.bind (fun a _ => consumed_final_compile a) fun _ => Keeps.pure _
  | call c => exact Keeps.bind (keeps_closed c) fun _ => Keeps.pure _
  | step s =>
      refine Keeps.bind (fun a ha => ?_) fun _ => Keeps.pure _
      rcases s.perform_cases a with ⟨fault, hrefused⟩ | ⟨call, hcall⟩
      · rw [final, hrefused]
        exact ha
      · rw [final, hcall]
        exact keeps_closed call a ha

/-- **A session in which the assembly was compiled leaves it closed**, whether compiling failed or
not. -/
theorem closed_after_compile (earlier later : List Request) (a : Assembly) :
    (after (earlier ++ .compile :: later) a).consumed = true := by
  rw [after, List.foldl_append, List.foldl_cons]
  refine List.foldlRecOn later _ ?_ fun b hb request _ => keeps_closed_request request b hb
  show (final (compile >>= fun result => pure (some result)) _).consumed = true
  rw [final_bind_pure]
  exact consumed_final_compile _

/-- **A refused step changes nothing, and what was compiled refuses everything.**  A step that fails
leaves the assembly as it was.  Leaving the refused steps out of a session changes neither the
answers to all else nor the assembly that is left.  Once the assembly was compiled, successfully or
not, every step but those that give or change places is refused as it is closed, and so is
compiling; nothing changes. -/
theorem refused_steps (a : Assembly) :
    (∀ (step : Draft.Step) (fault : Fault) (b : Assembly),
      step.perform a = .error fault b → b = a) ∧
    (∀ requests : List Request,
      transcript (((transcript requests a).filter isKept).map Prod.fst) a
          = (transcript requests a).filter isKept
        ∧ after (((transcript requests a).filter isKept).map Prod.fst) a = after requests a) ∧
    ∀ (earlier later : List Request) (b : Assembly), after (earlier ++ .compile :: later) a = b →
      compile b = .error .consumed b ∧
      ∀ step : Draft.Step, step.ofPlaces = false →
        (∀ source target marked, step = .dim source target marked →
          ∃ x y z, Reading.entries marked = .ok [x, y, z]) →
        step.perform b = .error .consumed b := by
  refine ⟨fun step fault b => step.atomic_perform a b fault, fun requests =>
    transcript_kept requests a, ?_⟩
  rintro earlier later b rfl
  have hclosed := closed_after_compile earlier later a
  exact ⟨compile_of_consumed hclosed, fun step hplaces haxes =>
    Draft.Step.perform_of_closed hclosed hplaces haxes⟩

/-- An assembly without circuits. -/
def blank : Assembly := empty (.manual .empty) .standard

/-- Placing the circuit that was added last, where none was added. -/
def misplaced : Draft.Step := .placeLast (.arr [.int 0, .int 0, .int 0])

/-- A connection along the first axis. -/
def fanned : Draft.Step := .dim "a" "b" (.arr [.bool true, .bool false, .bool false])

theorem refused_steps_blank :
    (misplaced.perform blank = .error .nothingAdded blank ∧ blank = blank) ∧
    (transcript (((transcript [.step misplaced, .step fanned, .compile] blank).filter isKept).map
          Prod.fst) blank
        = (transcript [.step misplaced, .step fanned, .compile] blank).filter isKept
      ∧ after (((transcript [.step misplaced, .step fanned, .compile] blank).filter isKept).map
          Prod.fst) blank = after [.step misplaced, .step fanned, .compile] blank) ∧
    (compile (after [.compile] blank) = .error .consumed (after [.compile] blank) ∧
      fanned.ofPlaces = false ∧
      (∀ source target marked, fanned = .dim source target marked →
        ∃ x y z, Reading.entries marked = .ok [x, y, z]) ∧
      fanned.perform (after [.compile] blank) = .error .consumed (after [.compile] blank)) := by
  have haxes : ∀ source target marked, fanned = .dim source target marked →
      ∃ x y z, Reading.entries marked = .ok [x, y, z] := by
    intro source target marked h
    cases h
    exact ⟨_, _, _, rfl⟩
  obtain ⟨hrefused, hkept, hclosed⟩ := refused_steps blank
  obtain ⟨hcompile, hstep⟩ := hclosed [] [] _ rfl
  exact ⟨⟨rfl, hrefused misplaced .nothingAdded blank rfl⟩, hkept _, hcompile, rfl, haxes,
    hstep fanned rfl haxes⟩

end Assembly

end Breadboard
