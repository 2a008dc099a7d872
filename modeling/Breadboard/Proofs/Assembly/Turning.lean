import Breadboard.Proofs.Assembly.Embedding
import Breadboard.Proofs.Assembly.Flattening
import Breadboard.Proofs.Assembly.Placed
import Breadboard.Proofs.Assembly.SideBySide
import Breadboard.Proofs.Circuit.Turned

/-!
**Circuits that are turned before they are added.**

A circuit can be turned on its way into an assembly, or it can be turned first and then added.  On
the way it is turned about the first corner of its bounding box, so the second way comes to the same
if the turned circuit is placed where the turned box begins.  Everything else in the assembly may be
built in between, before and after, and it does not matter by which calls a circuit comes to its
place and its turn.

Main definitions:

* `Assembly.Call.arranged` — the circuit that a call places or turns;
* `Assembly.callsBesides` — the calls that do not place or turn a circuit;
* `Assembly.HasPose` — what is known of the place and the turn of a circuit;
* `Assembly.exchange` — assemblies that differ in one circuit and in its place.

Main results:

* `Assembly.HasPose.place`, `Assembly.HasPose.rotate` — what placing and turning a circuit leads to;
* `Assembly.related_run` — **calls that differ only in how they arrange the exchanged circuit keep
  two assemblies alike**;
* `Assembly.link_eq_of_exchanged` — assemblies whose exchanged circuits are relocated alike are
  linked to the same circuit;
* `Assembly.turned_before_adding` — **turning a circuit before it is added comes to the same**.
-/

set_option autoImplicit false
set_option relaxedAutoImplicit false

namespace Breadboard

namespace Placements

/-- What is known of a circuit is changed. -/
def adjust (p : Placements) (name : String) (g : Pose → Pose) : Placements :=
  { p with poses := Keyed.insert name (g (p.pose name)) p.poses }

theorem find?_adjust_of_ne (p : Placements) {name other : String} (h : name ≠ other)
    (g : Pose → Pose) : Keyed.find? other (p.adjust name g).poses = Keyed.find? other p.poses := by
  rw [adjust, Keyed.find?_insert, if_neg h]

theorem pose_adjust_self (p : Placements) (name : String) (g : Pose → Pose) :
    (p.adjust name g).pose name = g (p.pose name) := by
  rw [pose, adjust, Keyed.find?_insert, if_pos rfl]
  rfl

/-- The gaps are the same if only the poses of one circuit differ, which has a place in both. -/
theorem gap?_eq_of_placed {p q : Placements} {name : String}
    (hp : (p.pose name).place.isSome = true) (hq : (q.pose name).place.isSome = true)
    (h : ∀ other, name ≠ other → Keyed.find? other q.poses = Keyed.find? other p.poses)
    (other : String) : q.gap? other = p.gap? other := by
  by_cases hother : name = other
  · rw [← hother, gap?_eq_none_iff_pose.2 hq, gap?_eq_none_iff_pose.2 hp]
  · rw [gap?, gap?, h other hother]

end Placements

namespace Assembly

/-! ### The circuits that calls arrange -/

theorem final_of_ok {α : Type} {act : AssemblyM α} {a b : Assembly} {v : α}
    (h : act a = .ok v b) : final act a = b := by
  rw [final, h]

/-- The circuit that was added last, where places are given one by one. -/
def lastAdded? (a : Assembly) : Option String :=
  match a.positioner with
  | .manual p => p.last
  | .listed _ => none

/-- The circuit that a call places or turns, if it does. -/
def Call.arranged (a : Assembly) : Call → Option String
  | .place name _ => some name
  | .rotate name _ => some name
  | .placeLast _ => a.lastAdded?
  | .rotateLast _ => a.lastAdded?
  | _ => none

theorem Call.arranges_of_arranged {call : Call} {name : String} {a : Assembly}
    (h : call.arranged a = some name) : call.arranges = true := by
  cases call with
  | place | rotate | placeLast | rotateLast => rfl
  | _ => cases h

/-- The calls that do not place or turn a circuit. -/
def callsBesides (name : String) : List Call → Assembly → List Call
  | [], _ => []
  | call :: rest, a =>
      if call.arranged a = some name then callsBesides name rest (final call.perform a)
      else call :: callsBesides name rest (final call.perform a)

section CallsBesides

variable {name : String} {call : Call} {a : Assembly}

theorem callsBesides_cons_of_arranged (h : call.arranged a = some name) (rest : List Call) :
    callsBesides name (call :: rest) a = callsBesides name rest (final call.perform a) :=
  if_pos h

theorem callsBesides_cons_of_ne (h : call.arranged a ≠ some name) (rest : List Call) :
    callsBesides name (call :: rest) a
      = call :: callsBesides name rest (final call.perform a) :=
  if_neg h

end CallsBesides

theorem run_cons (call : Call) (rest : List Call) (a : Assembly) :
    run (call :: rest) a = run rest (final call.perform a) := rfl

/-- An assembly whose places are changed. -/
def adjusted (name : String) (g : Pose → Pose) (a : Assembly) : Assembly :=
  match a.positioner with
  | .manual p => { a with positioner := .manual (p.adjust name g) }
  | .listed _ => a

section Adjusted

variable {a : Assembly} {p : Placements}

theorem final_place (hp : a.positioner = .manual p) (name : String) (point : Point) :
    final (place name point) a = a.adjusted name fun pose => { pose with place := some point } := by
  rw [place, final_arrangeBy hp, adjusted, hp]
  rfl

theorem final_rotate (hp : a.positioner = .manual p) (name : String) (turn : Turn) :
    final (rotate name turn) a
      = a.adjusted name fun pose => { pose with turn := turn.after pose.turn } := by
  rw [rotate, final_arrangeBy hp, adjusted, hp]
  rfl

end Adjusted

/-- What a call that arranges circuits leaves behind. -/
theorem Call.exists_adjusted {call : Call} (h : call.arranges = true) :
    ∃ g, ∀ (a : Assembly) (p : Placements), a.positioner = .manual p →
      final call.perform a = match call.arranged a with
        | some name => a.adjusted name g
        | none => a := by
  have hlast (g : Pose → Pose) (f : Placements → Except Fault Placements)
      (hf : ∀ p, f p = p.lastName >>= fun name => .ok (p.adjust name g)) (a : Assembly)
      (p : Placements) (hp : a.positioner = .manual p) :
      final (arrangeBy f) a = match a.lastAdded? with
        | some name => a.adjusted name g
        | none => a := by
    have hadded : a.lastAdded? = p.last := by rw [lastAdded?, hp]
    rw [final_arrangeBy hp, hf, Placements.lastName, hadded]
    cases p.last with
    | none => rfl
    | some name => simp only [Fault.ok_bind, adjusted, hp]
  cases call with
  | place name point => exact ⟨_, fun a p hp => final_place hp name point⟩
  | rotate name turn => exact ⟨_, fun a p hp => final_rotate hp name turn⟩
  | placeLast point =>
      exact ⟨_, hlast (fun pose => { pose with place := some point }) _ fun _ => rfl⟩
  | rotateLast turn =>
      exact ⟨_, hlast (fun pose => { pose with turn := turn.after pose.turn }) _ fun _ => rfl⟩
  | _ => cases h

/-- What is known of the place and the turn of a circuit. -/
def HasPose (name : String) (pose : Pose) (a : Assembly) : Prop :=
  ∃ p, a.positioner = .manual p ∧ p.pose name = pose

section HasPose

variable {name : String} {pose : Pose} {a : Assembly}

theorem HasPose.adjusted (h : HasPose name pose a) (g : Pose → Pose) :
    HasPose name (g pose) (a.adjusted name g) := by
  obtain ⟨p, hp, hpose⟩ := h
  exact ⟨p.adjust name g, by rw [Assembly.adjusted, hp], by rw [p.pose_adjust_self, hpose]⟩

/-- A circuit that is placed keeps its turn. -/
theorem HasPose.place (h : HasPose name pose a) (point : Point) :
    HasPose name { pose with place := some point } (final (Assembly.place name point) a) := by
  have ⟨p, hp, _⟩ := h
  rw [final_place hp]
  exact h.adjusted _

/-- A circuit that is turned keeps its place. -/
theorem HasPose.rotate (h : HasPose name pose a) (turn : Turn) :
    HasPose name { pose with turn := turn.after pose.turn }
      (final (Assembly.rotate name turn) a) := by
  have ⟨p, hp, _⟩ := h
  rw [final_rotate hp]
  exact h.adjusted _

end HasPose

/-! ### Two assemblies with exchanged circuits -/

/-- The circuits `c` and `d` under one name, and the places of this circuit, may stand for each
other. -/
def exchange (name : String) {c d : Circuit} (hslots : ∀ side, d.slots side = c.slots side) :
    Likeness where
  circuits n e f := f = e ∨ n = name ∧ e = c ∧ f = d
  positioners p q := ∃ u v, p = .manual u ∧ q = .manual v ∧ v.last = u.last
    ∧ ∀ other, name ≠ other → Keyed.find? other v.poses = Keyed.find? other u.poses
  refl _ _ := .inl rfl
  slots := by
    rintro n e f (rfl | ⟨_, rfl, rfl⟩) side
    · rfl
    · exact hslots side
  noteAdded := by
    rintro p q ⟨u, v, rfl, rfl, _, hposes⟩ name
    exact ⟨u.noteAdded name, v.noteAdded name, rfl, rfl, rfl, hposes⟩

section Exchange

variable {name : String} {c d : Circuit} {hslots : ∀ side, d.slots side = c.slots side}
  {a b : Assembly}

theorem arranged_eq (h : (exchange name hslots).Related a b) (call : Call) :
    call.arranged b = call.arranged a := by
  obtain ⟨schemes, _, _, ⟨u, v, hu, rfl, hlast, _⟩, rfl⟩ := h
  have hadded : lastAdded? { a with schemes := schemes, positioner := .manual v }
      = a.lastAdded? := by
    rw [lastAdded?, lastAdded?, hu]
    exact hlast
  cases call with
  | placeLast | rotateLast => exact hadded
  | _ => rfl

/-- Among circuits of different names only the exchanged one differs. -/
theorem forall₂_exchanged {schemes schemes' : Keyed Circuit}
    (h : List.Forall₂ (exchange name hslots).Entry schemes schemes')
    (hnames : (Keyed.names schemes).Nodup) (hc : (name, c) ∈ schemes) (hd : (name, d) ∈ schemes') :
    List.Forall₂ (fun s t => s.1 ∈ Keyed.names schemes
      ∧ (s = (name, c) ∧ t = (name, d) ∨ name ≠ s.1 ∧ t = s)) schemes schemes' := by
  refine List.forall₂_iff_zip.2 ⟨h.length_eq, fun {s t} hst => ?_⟩
  obtain ⟨hname, hcd⟩ := (List.forall₂_iff_zip.1 h).2 hst
  obtain ⟨hs, ht⟩ := List.of_mem_zip hst
  refine ⟨List.mem_map_of_mem hs, ?_⟩
  by_cases hn : name = s.1
  · have hnames' : (schemes'.map Prod.fst).Nodup := by
      rw [show schemes'.map Prod.fst = Keyed.names schemes from Likeness.names_eq h]
      exact hnames
    exact .inl ⟨List.inj_on_of_nodup_map hnames hs hc hn.symm,
      List.inj_on_of_nodup_map hnames' ht hd (hname.trans hn.symm)⟩
  · rcases hcd with hsame | ⟨hsame, _⟩
    · exact .inr ⟨hn, Prod.ext hname hsame⟩
    · exact absurd hsame.symm hn

/-- The place of another circuit may be changed in both assemblies. -/
theorem related_adjusted (h : (exchange name hslots).Related a b) {other : String}
    (hother : other ≠ name) (g : Pose → Pose) :
    (exchange name hslots).Related (a.adjusted other g) (b.adjusted other g) := by
  obtain ⟨schemes, _, hschemes, ⟨u, v, hu, rfl, hlast, hposes⟩, rfl⟩ := h
  refine ⟨schemes, .manual (v.adjust other g), ?_,
    ⟨u.adjust other g, v.adjust other g, ?_, rfl, hlast, fun n hn => ?_⟩, ?_⟩
  · rw [adjusted, hu]
    exact hschemes
  · rw [adjusted, hu]
  · have hpose : v.pose other = u.pose other := by
      rw [Placements.pose, hposes other hother.symm, Placements.pose]
    simp only [Placements.adjust, Keyed.find?_insert, hpose, hposes n hn]
  · rw [adjusted, adjusted, hu]

/-- The place of the exchanged circuit may be changed in the first assembly. -/
theorem related_adjusted_left (h : (exchange name hslots).Related a b) (g : Pose → Pose) :
    (exchange name hslots).Related (a.adjusted name g) b := by
  obtain ⟨schemes, _, hschemes, ⟨u, v, hu, rfl, hlast, hposes⟩, rfl⟩ := h
  refine ⟨schemes, .manual v, ?_, ⟨u.adjust name g, v, ?_, rfl, hlast, fun n hn => ?_⟩, ?_⟩
  · rw [adjusted, hu]
    exact hschemes
  · rw [adjusted, hu]
  · rw [u.find?_adjust_of_ne hn, hposes n hn]
  · rw [adjusted, hu]

/-- The place of the exchanged circuit may be changed in the second assembly. -/
theorem related_adjusted_right (h : (exchange name hslots).Related a b) (g : Pose → Pose) :
    (exchange name hslots).Related a (b.adjusted name g) := by
  obtain ⟨schemes, _, hschemes, ⟨u, v, hu, rfl, hlast, hposes⟩, rfl⟩ := h
  refine ⟨schemes, .manual (v.adjust name g), hschemes,
    ⟨u, v.adjust name g, hu, rfl, hlast, fun n hn => ?_⟩, rfl⟩
  rw [v.find?_adjust_of_ne hn, hposes n hn]

/-- A call that does not arrange the exchanged circuit keeps the assemblies alike. -/
theorem related_perform (h : (exchange name hslots).Related a b) {call : Call}
    (hcall : call.arranged a ≠ some name) :
    (exchange name hslots).Related (final call.perform a) (final call.perform b) := by
  cases harranges : call.arranges with
  | true =>
      obtain ⟨g, hg⟩ := Call.exists_adjusted harranges
      have ⟨schemes, _, _, ⟨u, v, hu, hv, _⟩, hb⟩ := h
      have hpositioner : b.positioner = .manual v := by rw [hb, hv]
      rw [hg a u hu, hg b v hpositioner, arranged_eq h]
      cases hother : call.arranged a with
      | none => exact h
      | some other =>
          exact related_adjusted h (fun heq => hcall (by rw [hother, heq])) g
  | false => exact ((exchange name hslots).parallel_perform harranges a b h).final

/-- A call that arranges the exchanged circuit may be left out of the first calls. -/
theorem related_perform_left (h : (exchange name hslots).Related a b) {call : Call}
    (hcall : call.arranged a = some name) :
    (exchange name hslots).Related (final call.perform a) b := by
  obtain ⟨g, hg⟩ := Call.exists_adjusted (Call.arranges_of_arranged hcall)
  have ⟨_, _, _, ⟨u, _, hu, _⟩, _⟩ := h
  rw [hg a u hu, hcall]
  exact related_adjusted_left h g

/-- A call that arranges the exchanged circuit may be left out of the second calls. -/
theorem related_perform_right (h : (exchange name hslots).Related a b) {call : Call}
    (hcall : call.arranged b = some name) :
    (exchange name hslots).Related a (final call.perform b) := by
  obtain ⟨g, hg⟩ := Call.exists_adjusted (Call.arranges_of_arranged hcall)
  have ⟨_, _, _, ⟨_, v, _, hv, _⟩, hb⟩ := h
  rw [hg b v (by rw [hb, hv]), hcall]
  exact related_adjusted_right h g

/-- **Calls that differ only in how they arrange the exchanged circuit keep the assemblies alike.**
Calls that arrange the circuit are left out on either side; the others come in pairs. -/
theorem related_run : ∀ (calls calls' : List Call) {a b : Assembly},
    (exchange name hslots).Related a b → callsBesides name calls a = callsBesides name calls' b →
      (exchange name hslots).Related (run calls a) (run calls' b)
  | [], [], _, _, h, _ => h
  | [], call :: rest, _, b, h, heq => by
      by_cases hcall : call.arranged b = some name
      · rw [callsBesides_cons_of_arranged hcall] at heq
        exact related_run [] rest (related_perform_right h hcall) heq
      · rw [callsBesides_cons_of_ne hcall] at heq
        cases heq
  | call :: rest, [], a, _, h, heq => by
      by_cases hcall : call.arranged a = some name
      · rw [callsBesides_cons_of_arranged hcall] at heq
        exact related_run rest [] (related_perform_left h hcall) heq
      · rw [callsBesides_cons_of_ne hcall] at heq
        cases heq
  | call :: rest, call' :: rest', a, b, h, heq => by
      by_cases hcall : call.arranged a = some name
      · rw [callsBesides_cons_of_arranged hcall] at heq
        exact related_run rest (call' :: rest') (related_perform_left h hcall) heq
      · by_cases hcall' : call'.arranged b = some name
        · rw [callsBesides_cons_of_arranged hcall'] at heq
          exact related_run (call :: rest) rest' (related_perform_right h hcall') heq
        · rw [callsBesides_cons_of_ne hcall, callsBesides_cons_of_ne hcall'] at heq
          obtain ⟨rfl, hrest⟩ := List.cons.inj heq
          exact related_run rest rest' (related_perform h hcall) hrest

/-- The exchanged circuits are added to assemblies that are alike. -/
theorem related_added {a' b' : Assembly} (h : (exchange name hslots).Related a b)
    (ha : add name (.circuit c) a = .ok () a') (hb : add name (.circuit d) b = .ok () b') :
    (exchange name hslots).Related a' b' := by
  have hoffers : (exchange name hslots).Offers name (.circuit c) (.circuit d) :=
    .inr ⟨c, d, rfl, rfl, Or.inr ⟨rfl, rfl, rfl⟩⟩
  have hadded := (Likeness.parallel_add hoffers a b h).final
  rwa [final_of_ok ha, final_of_ok hb] at hadded

/-- **Assemblies whose exchanged circuits are relocated alike are linked to the same circuit.** -/
theorem link_eq_of_exchanged {place place' : Point} {turn turn' : Turn}
    (h : (exchange name hslots).Related a b) (hfirst : HasPose name ⟨some place, turn⟩ a)
    (hsecond : HasPose name ⟨some place', turn'⟩ b) (hnames : (Keyed.names a.schemes).Nodup)
    (hc : (name, c) ∈ a.schemes) (hd : (name, d) ∈ b.schemes)
    (hunits : ∀ offset, d.relocate offset place' turn' = c.relocate offset place turn) :
    b.link = a.link := by
  obtain ⟨schemes, _, hschemes, ⟨u, v, hu, rfl, _, hposes⟩, rfl⟩ := h
  obtain ⟨u', hu', hfirst⟩ := hfirst
  obtain ⟨v', hv', hsecond⟩ := hsecond
  obtain rfl : u = u' := Positioner.manual.inj (hu.symm.trans hu')
  obtain rfl : v = v' := Positioner.manual.inj hv'
  have hgap : v.gap? = u.gap? := funext fun n =>
    Placements.gap?_eq_of_placed (by rw [hfirst]; rfl) (by rw [hsecond]; rfl) hposes n
  have hkeys : Keyed.names schemes = Keyed.names a.schemes := Likeness.names_eq hschemes
  refine link_eq_of_blocks ?_
  simp only [blocks, hu, Positioner.arrange, hgap, hkeys]
  split
  · refine layOut_congr ((forall₂_exchanged hschemes hnames hc hd).imp ?_) 0
    rintro s t ⟨hmem, hcases⟩
    rw [seat, seat, find?_map_names _ hmem, find?_map_names _ hmem, Option.getD_some,
      Option.getD_some]
    rcases hcases with ⟨rfl, rfl⟩ | ⟨hn, rfl⟩
    · rw [hfirst, hsecond]
      exact ⟨rfl, hslots, hunits⟩
    · rw [Placements.pose, hposes _ hn, Placements.pose]
      exact ⟨rfl, fun _ => rfl, fun _ => rfl⟩
  · rfl

end Exchange

/-! ### Turning before adding -/

/-- A circuit that was added is one of the assembly, whatever is called afterwards. -/
theorem mem_schemes_run {name : String} {c : Circuit} {a : Assembly} (h : (name, c) ∈ a.schemes)
    (calls : List Call) : (name, c) ∈ (run calls a).schemes := by
  refine run_of_keeps (I := fun a => (name, c) ∈ a.schemes) h fun call _ => ?_
  refine Call.keeps_of_change fun a b ha hchange => ?_
  cases hchange with
  | checked | connected | arranged => exact ha
  | added => exact List.mem_append_left _ ha
  | @planned side | @forwarded side => cases side <;> exact ha

/-- A circuit is added at the end, if its name may be used and is new. -/
theorem add_circuit_eq_ok_iff {name : String} {c : Circuit} {a b : Assembly} :
    add name (.circuit c) a = .ok () b ↔ a.consumed = false ∧ checkName name "Scheme" = .ok ()
      ∧ Keyed.has name a.schemes = false ∧ b = { a with
        schemes := a.schemes ++ [(name, c)]
        positioner := a.positioner.noteAdded name } := by
  constructor
  · intro h
    obtain ⟨hopen, h⟩ := ensureOpen_bind_eq_ok_iff.1 h
    obtain ⟨_, hcircuit, h⟩ := answer_bind_eq_ok_iff.1 h
    cases hcircuit
    obtain ⟨_, hname, h⟩ := answer_bind_eq_ok_iff.1 h
    rw [Loop.get_bind] at h
    split at h
    · cases h
    · rename_i hnew
      cases h
      exact ⟨hopen, hname, eq_false_of_ne_true hnew, rfl⟩
  · rintro ⟨hopen, hname, hnew, rfl⟩
    refine ensureOpen_bind_eq_ok_iff.2 ⟨hopen, answer_bind_eq_ok_iff.2 ⟨c, rfl, ?_⟩⟩
    refine answer_bind_eq_ok_iff.2 ⟨(), hname, ?_⟩
    rw [Loop.get_bind, hnew]
    rfl

/-- Where a circuit could be added under a name, any circuit can be. -/
theorem exists_added {name : String} {c : Circuit} {a b : Assembly}
    (h : add name (.circuit c) a = .ok () b) (d : Circuit) :
    ∃ b', add name (.circuit d) a = .ok () b' := by
  obtain ⟨hopen, hname, hnew, _⟩ := add_circuit_eq_ok_iff.1 h
  exact ⟨_, add_circuit_eq_ok_iff.2 ⟨hopen, hname, hnew, rfl⟩⟩

theorem mem_schemes_of_added {name : String} {c : Circuit} {a b : Assembly}
    (h : add name (.circuit c) a = .ok () b) : (name, c) ∈ b.schemes := by
  obtain ⟨_, _, _, rfl⟩ := add_circuit_eq_ok_iff.1 h
  exact List.mem_append_right _ List.mem_cons_self

theorem outcome_compile (a : Assembly) :
    outcome compile a = if a.consumed then .error .consumed else a.link := by
  cases hopen : a.consumed with
  | true =>
      rw [outcome, compile_of_consumed hopen]
      rfl
  | false =>
      rw [outcome, compile_of_open hopen]
      cases a.link <;> rfl

/-- The circuits of an assembly have different names, whatever was called. -/
theorem nodup_names_run (config : CompileConfig) (calls : List Call) :
    (Keyed.names (run calls (empty (.manual .empty) config)).schemes).Nodup :=
  (@holds_run (fun _ => True) calls _ (holds_empty _ config) fun _ _ _ _ _ _ => trivial).names

/-- An assembly without circuits is like itself, whatever circuit is exchanged. -/
theorem related_empty (name : String) {c d : Circuit}
    (hslots : ∀ side, d.slots side = c.slots side) (config : CompileConfig) :
    (exchange name hslots).Related (empty (.manual .empty) config)
      (empty (.manual .empty) config) :=
  ⟨[], _, .nil, ⟨.empty, .empty, rfl, rfl, rfl, fun _ _ => rfl⟩, rfl⟩

/-- **Turning a circuit before it is added comes to the same.**  A modest circuit can be turned, and
so can the size of its bounding box.  Whatever was built before, where the circuit can be added, the
turned circuit can be added instead.  The circuit may then be brought to a place and turned there,
and the turned circuit to where the turned box begins, without being turned again.  If all other
calls are the same on both sides, compiling has the same outcome. -/
theorem turned_before_adding {c : Circuit} (hne : c.units ≠ []) (hmodest : c.Modest) (t : Turn)
    (place : Point) :
    ∃ start size d far, Circuit.boundingBox c.units = .ok (start, size)
      ∧ Circuit.rotate t c = .ok () d
      ∧ Reading.moved t (size - .one) = .ok far
      ∧ ∀ (config : CompileConfig) (before : List Call) (a : Assembly),
        a = run before (empty (.manual .empty) config) →
        ∀ (name : String) (b : Assembly), add name (.circuit c) a = .ok () b →
          ∃ b', add name (.circuit d) a = .ok () b'
            ∧ ∀ later later' : List Call,
              callsBesides name later b = callsBesides name later' b' →
              HasPose name ⟨some place, t⟩ (run later b) →
              HasPose name ⟨some (place + Point.origin.meet far), .identity⟩ (run later' b') →
              outcome compile (run later b) = outcome compile (run later' b') := by
  obtain ⟨⟨start, size⟩, hbox⟩ := hmodest.movable.box
  refine ⟨start, size, c.turned t, t.act (size - .one), hbox, Circuit.rotate_of_modest hmodest t,
    hmodest.moved_size hbox hne t, ?_⟩
  rintro config before a rfl name b hadded
  obtain ⟨b', hadded'⟩ := exists_added hadded (c.turned t)
  refine ⟨b', hadded', fun later later' hcalls hfirst hsecond => ?_⟩
  have hrelated : (exchange name (Circuit.slots_turned t c)).Related (run later b)
      (run later' b') :=
    related_run later later' (related_added
      (related_run before before (related_empty name _ config) rfl) hadded hadded') hcalls
  -- the circuits of the first assembly have different names, as it was built by calls
  have hnames : (Keyed.names (run later b).schemes).Nodup := by
    have hrun := nodup_names_run config (before ++ .add name (.circuit c) :: later)
    rwa [run_append, run_cons, Call.perform, final_of_ok hadded] at hrun
  have hlink := link_eq_of_exchanged hrelated hfirst hsecond hnames
    (mem_schemes_run (mem_schemes_of_added hadded) later)
    (mem_schemes_run (mem_schemes_of_added hadded') later')
    fun offset => Circuit.relocate_turned hbox hne hmodest offset place t
  rw [outcome_compile, outcome_compile, hlink, hrelated.consumed_eq]

/-- Calls that connect two gates in a row with the circuit that was added behind them, pass its
output on, and arrange it in between. -/
def connecting (first last : List Call) : List Call :=
  .connect "near" "low" .straight :: (first ++ .rotate "near" .quarterX :: (last
    ++ [.forward .output "_" "low" none]))

/-- The timer and the gate, which are turned on their way behind the two gates in a row, or before
they are added there. -/
theorem turned_before_adding_lying :
    lying.units ≠ [] ∧ lying.Modest
      ∧ ∃ a, a = run [.add "near" (.circuit twoGates), .placeLast .origin]
          (empty (.manual .empty) .standard)
      ∧ ∃ b, add "low" (.circuit lying) a = .ok () b
      ∧ ∃ d b', Circuit.rotate .quarterZ lying = .ok () d
      ∧ add "low" (.circuit d) a = .ok () b'
      ∧ callsBesides "low" (connecting [.rotateLast .quarterZ] [.place "low" ⟨10, 0, 7⟩]) b
          = callsBesides "low" (connecting [] [.placeLast ⟨9, 0, 7⟩]) b'
      ∧ HasPose "low" ⟨some ⟨10, 0, 7⟩, .quarterZ⟩
          (run (connecting [.rotateLast .quarterZ] [.place "low" ⟨10, 0, 7⟩]) b)
      ∧ HasPose "low" ⟨some ⟨9, 0, 7⟩, .identity⟩
          (run (connecting [] [.placeLast ⟨9, 0, 7⟩]) b')
      ∧ ∃ compiled,
        outcome compile (run (connecting [.rotateLast .quarterZ] [.place "low" ⟨10, 0, 7⟩]) b)
          = .ok compiled
        ∧ outcome compile (run (connecting [] [.placeLast ⟨9, 0, 7⟩]) b') = .ok compiled
        ∧ compiled.1.units.map Element.cells
          = [[⟨0, 0, 0⟩], [⟨1, 0, 0⟩], [⟨9, 0, 7⟩, ⟨10, 0, 7⟩], [⟨10, 0, 7⟩]] := by
  have hne : lying.units ≠ [] := List.cons_ne_nil _ _
  obtain ⟨start, size, d, far, hbox, hd, hfar, hcompile⟩ :=
    turned_before_adding hne modest_lying .quarterZ ⟨10, 0, 7⟩
  cases hbox
  cases hfar
  cases hd
  obtain ⟨b', hadded', hsame⟩ := hcompile .standard
    [.add "near" (.circuit twoGates), .placeLast .origin] _ rfl "low" _ rfl
  cases hadded'
  have hcompiled := hsame (connecting [.rotateLast .quarterZ] [.place "low" ⟨10, 0, 7⟩])
    (connecting [] [.placeLast ⟨9, 0, 7⟩]) rfl ⟨_, rfl, rfl⟩ ⟨_, rfl, rfl⟩
  exact ⟨hne, modest_lying, _, rfl, _, rfl, _, _, rfl, rfl, rfl, ⟨_, rfl, rfl⟩, ⟨_, rfl, rfl⟩, _,
    rfl, hcompiled.symm.trans rfl, rfl⟩

end Assembly

end Breadboard
