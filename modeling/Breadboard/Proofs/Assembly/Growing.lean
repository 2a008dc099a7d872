import Breadboard.Proofs.Assembly.Bulk
import Breadboard.Proofs.Assembly.Designs

/-!
**Designs that grow by calls.**

A design is written down as a whole.  It is also what an empty assembly becomes by calls that add
the circuits, place and turn them, connect them and plan slots, as long as none of them fails; and
compiling what the calls lead to is linking the design.

Main definitions:

* `Assembly.Reaches` — calls that succeed one after the other, and where they lead;
* `Assembly.built` — what is compiled after calls on an empty assembly.

Main results:

* `Assembly.built_eq_of_reaches` — **a design is linked as it is compiled after its calls**;
* `Assembly.addCopies_eq_ok`, `Assembly.plan_eq_ok` — what can be added and planned is;
* `Assembly.reaches_add_placeLast` — a circuit is added to a design and placed.
-/

set_option autoImplicit false
set_option relaxedAutoImplicit false

namespace Breadboard

namespace Assembly

/-- Calls that succeed one after the other lead from one assembly to another. -/
def Reaches (calls : List Call) (a b : Assembly) : Prop := calls.forM Call.perform a = .ok () b

/-- What is compiled after calls on an empty assembly, with what there is to report. -/
def built (what : String) (config : CompileConfig) (calls : List Call) :
    Except Fault (Circuit × List Notice) := do
  let (circuit, diagnostics) ←
    outcome (do calls.forM Call.perform; compile) (empty (.manual .empty) config)
  pure (circuit, diagnostics.noticesFor what)

section Calls

variable {call : Call} {calls later : List Call} {a b c : Assembly}

theorem Reaches.cons (h : call.perform a = .ok () b) (hrest : Reaches calls b c) :
    Reaches (call :: calls) a c :=
  (Loop.forM_cons_of_ok h).trans hrest

theorem Reaches.append (h : Reaches calls a b) (hlater : Reaches later b c) :
    Reaches (calls ++ later) a c :=
  (Loop.forM_append_of_ok h).trans hlater

/-- Compiling what calls lead to is linking it. -/
theorem Reaches.built_eq {config : CompileConfig}
    (h : Reaches calls (empty (.manual .empty) config) a) (hopen : a.consumed = false)
    (what : String) : built what config calls = a.linkFor what := by
  have houtcome : outcome (do calls.forM Call.perform; compile) (empty (.manual .empty) config)
      = a.link := by
    rw [outcome, Loop.bind_of_ok h, compile_of_open hopen]
    cases a.link <;> rfl
  rw [built, houtcome]
  rfl

/-- Calls that put the circuits of a design together, and calls that plan its slots. -/
theorem built_eq_of_reaches {config : CompileConfig} {placed : List Placed} {links : List Link}
    {inputs outputs : List SlotPlan}
    (h : Reaches calls (empty (.manual .empty) config) (ofPlaced config placed links [] []))
    (hlater : Reaches later (ofPlaced config placed links [] [])
      (ofPlaced config placed links inputs outputs)) (what : String) :
    built what config (calls ++ later)
      = (ofPlaced config placed links inputs outputs).linkFor what :=
  (h.append hlater).built_eq rfl what

/-- A circuit under a name that can be used is added. -/
theorem add_eq_ok (taken : List String) (hopen : a.consumed = false) {name : String}
    {fragment : Fragment} {c : Circuit} (hc : fragment.circuit? = .ok c)
    (htaken : Keyed.names a.schemes = taken)
    (hfree : refusal? taken name = none) :
    add name fragment a = .ok () (a.withCircuit name c) := by
  rw [add_eq name hopen hc, htaken, hfree]

/-- The circuits under given names are known. -/
theorem Becomes.unique {items : List (String × Fragment)} {first second : Keyed Circuit}
    (h : Becomes items first) (h' : Becomes items second) : first = second := by
  induction h generalizing second with
  | nil => cases h'; rfl
  | cons hentry _ ih =>
      cases h' with
      | cons hentry' hrest =>
          have hcircuit := Except.ok.inj (hentry.2.symm.trans hentry'.2)
          rw [ih hrest, Prod.ext (hentry.1.trans hentry'.1.symm) hcircuit]

theorem Becomes.exists_circuit {items : List (String × Fragment)} {added : Keyed Circuit}
    (h : Becomes items added) : ∀ item ∈ items, ∃ c, item.2.circuit? = .ok c := by
  induction h with
  | nil => simp
  | cons hentry _ ih => exact List.forall_mem_cons.2 ⟨⟨_, hentry.2⟩, ih⟩

/-- No name is refused if all of them can be used and they are different. -/
theorem refusals_eq_nil {α : Type} {taken : List String} {items : List (String × α)}
    (hnodup : (Keyed.names items).Nodup)
    (hfree : ∀ name ∈ Keyed.names items, refusal? taken name = none) :
    refusals taken items = [] := by
  induction items generalizing taken with
  | nil => rfl
  | cons item rest ih =>
      obtain ⟨hnew, hrest⟩ := List.nodup_cons.1 hnodup
      rw [refusals_cons_of_free (hfree item.1 List.mem_cons_self)]
      refine ih hrest fun name hname => ?_
      obtain ⟨hempty, hseparator, htaken⟩ :=
        refusal?_eq_none_iff.1 (hfree name (List.mem_cons_of_mem _ hname))
      refine refusal?_eq_none_iff.2 ⟨hempty, hseparator, ?_⟩
      rw [List.mem_append, List.mem_singleton]
      rintro (hold | rfl)
      · exact htaken hold
      · exact hnew hname

/-- A list of circuits under names that can be used is added as a whole. -/
theorem addAll_eq_ok (taken : List String) (hopen : a.consumed = false)
    {items : List (String × Fragment)} {added : Keyed Circuit} (h : Becomes items added)
    (htaken : Keyed.names a.schemes = taken) (hnodup : (Keyed.names items).Nodup)
    (hfree : ∀ name ∈ Keyed.names items, refusal? taken name = none) :
    addAll items a = .ok () (a.withCircuits added) := by
  obtain ⟨added', hbecomes, _, hall⟩ := addAll_eq hopen h.exists_circuit
  have hnone := refusals_eq_nil hnodup hfree
  rw [htaken, refusals_eq_nil_iff.1 hnone] at hbecomes
  rw [hall, htaken, if_pos hnone, h.unique hbecomes]

/-- Copies of a circuit under names that can be used are all added. -/
theorem addCopies_eq_ok (taken : List String) (hopen : a.consumed = false)
    {names : List String} {fragment : Fragment} {c : Circuit} (hc : fragment.circuit? = .ok c)
    (htaken : Keyed.names a.schemes = taken) (hnodup : names.Nodup)
    (hfree : ∀ name ∈ names, refusal? taken name = none) :
    addCopies names fragment a = .ok () (a.withCircuits (names.map fun name => (name, c))) := by
  have hnames : Keyed.names (names.map fun name => (name, fragment)) = names := by
    rw [Keyed.names, List.map_map]
    exact List.map_id names
  have hbecomes : Becomes (names.map fun name => (name, fragment))
      (names.map fun name => (name, c)) :=
    List.forall₂_map_left_iff.2 (List.forall₂_map_right_iff.2
      (List.forall₂_same.2 fun _ _ => ⟨rfl, hc⟩))
  rw [addCopies_eq hc]
  exact addAll_eq_ok taken hopen hbecomes htaken (hnames.symm ▸ hnodup) (hnames.symm ▸ hfree)

/-- A slot under a name that can be used is planned. -/
theorem plan_eq_ok (taken : List String) (name : String) (hopen : a.consumed = false) {side : Side}
    {p : SlotPlan} (hname : p.name = name) (htaken : (a.plans side).map SlotPlan.name = taken)
    (hfree : refusal? taken name = none) :
    plan side p a = .ok () (a.pushPlan side p) := by
  subst hname htaken
  obtain ⟨hempty, hseparator, hnew⟩ := refusal?_eq_none_iff.1 hfree
  have hchecked : answer (checkName p.name (side.title ++ " slot")) a = .ok () a := by
    rw [(checkName_eq_ok_iff _).2 ⟨hempty, hseparator⟩, answer_ok]
  have hany : ¬ ((a.plans side).any fun q => q.name == p.name) = true := by
    rw [List.any_eq_true]
    rintro ⟨q, hq, hqp⟩
    exact hnew (List.mem_map.2 ⟨q, hq, beq_iff_eq.1 hqp⟩)
  rw [plan, Loop.bind_of_ok (ensureOpen_of_open hopen), Loop.bind_of_ok hchecked, Loop.get_bind,
    if_neg hany]
  rfl

end Calls

/-! ### Designs that grow -/

section Growing

variable {config : CompileConfig} {placed : List Placed} {links : List Link}
  {inputs outputs : List SlotPlan} {name : String}

/-- What is known of the places of a design. -/
def poses (placed : List Placed) : Keyed Pose :=
  placed.map fun p => (p.name, ⟨some p.place, p.turn⟩)

/-- Nothing is known of a circuit that is not in the design. -/
theorem find?_poses_eq_none (h : name ∉ placed.map Placed.name) :
    Keyed.find? name (poses placed) = none := by
  have hnames : Keyed.names (poses placed) = placed.map Placed.name := by
    rw [poses, Keyed.names, List.map_map]
    rfl
  rw [← Option.not_isSome_iff_eq_none]
  exact fun hsome => h (hnames ▸ Keyed.has_iff.1 hsome)

/-- A circuit with a new name goes to the end of the design. -/
theorem place_poses (h : name ∉ placed.map Placed.name) (c : Circuit) (point : Point) :
    (⟨poses placed, some name⟩ : Placements).place name point
      = ⟨poses (placed ++ [⟨name, c, point, .identity⟩]), some name⟩ := by
  have hnone := find?_poses_eq_none h
  rw [Placements.place, Placements.pose, hnone, Keyed.insert_of_find?_eq_none hnone, poses, poses,
    List.map_append]
  rfl

/-- **A circuit is added to a design and placed.** -/
theorem reaches_add_placeLast (c : Circuit) (point : Point)
    (hfree : refusal? (placed.map Placed.name) name = none) :
    Reaches [.add name (.circuit c), .placeLast point]
      (ofPlaced config placed links inputs outputs)
      (ofPlaced config (placed ++ [⟨name, c, point, .identity⟩]) links inputs outputs) := by
  have hdesign : ofPlaced config (placed ++ [⟨name, c, point, .identity⟩]) links inputs outputs
      = { (ofPlaced config placed links inputs outputs).withCircuit name c with
          positioner := .manual (Placements.place ⟨poses placed, some name⟩ name point) } := by
    rw [place_poses (refusal?_eq_none_iff.1 hfree).2.2 c]
    simp [ofPlaced, withCircuit, poses]
  refine .cons (add_eq_ok (placed.map Placed.name) rfl rfl names_circuits hfree) ?_
  rw [hdesign]
  rfl

/-- A connection is added to a design. -/
theorem reaches_connect (source target : String) (wiring : Wiring) :
    Reaches [.connect source target wiring] (ofPlaced config placed links inputs outputs)
      (ofPlaced config placed (links ++ [⟨source, target, wiring⟩]) inputs outputs) := rfl

end Growing

end Assembly

end Breadboard
