import Breadboard.Proofs.Assembly.Copied

/-!
**Adding many circuits at once.**

Of a list of circuits every one is added whose name can be used.  Whether it can depends on what was
accepted before it: the first of several circuits of one name is added, and the later ones are
refused.  What is refused leaves no trace in the assembly, and is reported at the end, one fault for
each refused circuit.

Main definitions:

* `Assembly.accepted`, `Assembly.refusals` — the circuits of a list that are added, and the faults
  of the others.

Main results:

* `Assembly.accepted_concat`, `Assembly.refusals_concat` — the verdict on a name by what stands
  before it in the list: **the first circuit of a name wins**;
* `Assembly.mapM_addOrReport` — the circuits are tried one after the other;
* `Assembly.addAll_applies` — **a list of circuits is added as far as it can be**.
-/

set_option autoImplicit false
set_option relaxedAutoImplicit false

namespace Breadboard

/-- Only the circuit that was added last is kept in mind. -/
theorem Positioner.noteAdded_noteAdded (positioner : Positioner) (first second : String) :
    (positioner.noteAdded first).noteAdded second = positioner.noteAdded second := by
  cases positioner <;> rfl

namespace Assembly

/-! ### Verdicts on names -/

section Verdicts

variable {α : Type}

/-- The entries of a list whose names are accepted one after the other, where the names `taken` are
in use before; a name that was accepted is in use from then on. -/
def accepted : List String → List (String × α) → List (String × α)
  | _, [] => []
  | taken, item :: rest =>
      match refusal? taken item.1 with
      | none => item :: accepted (taken ++ [item.1]) rest
      | some _ => accepted taken rest

/-- The faults of the entries whose names are not accepted, one for each. -/
def refusals : List String → List (String × α) → List Fault
  | _, [] => []
  | taken, item :: rest =>
      match refusal? taken item.1 with
      | none => refusals (taken ++ [item.1]) rest
      | some fault => fault :: refusals taken rest

variable {taken : List String} {name : String} {item : String × α} {fault : Fault}

theorem accepted_cons_of_free (h : refusal? taken item.1 = none) (rest : List (String × α)) :
    accepted taken (item :: rest) = item :: accepted (taken ++ [item.1]) rest := by
  rw [accepted, h]

theorem accepted_cons_of_refused (h : refusal? taken item.1 = some fault)
    (rest : List (String × α)) : accepted taken (item :: rest) = accepted taken rest := by
  rw [accepted, h]

theorem refusals_cons_of_free (h : refusal? taken item.1 = none) (rest : List (String × α)) :
    refusals taken (item :: rest) = refusals (taken ++ [item.1]) rest := by
  rw [refusals, h]

theorem refusals_cons_of_refused (h : refusal? taken item.1 = some fault)
    (rest : List (String × α)) : refusals taken (item :: rest) = fault :: refusals taken rest := by
  rw [refusals, h]

/-- Each entry is accepted, or one fault is reported. -/
theorem length_accepted_add_length_refusals (taken : List String) (items : List (String × α)) :
    (accepted taken items).length + (refusals taken items).length = items.length := by
  induction items generalizing taken with
  | nil => rfl
  | cons item rest ih =>
      cases h : refusal? taken item.1 with
      | none =>
          rw [accepted_cons_of_free h, refusals_cons_of_free h, List.length_cons, List.length_cons,
            ← ih (taken ++ [item.1])]
          omega
      | some fault =>
          rw [accepted_cons_of_refused h, refusals_cons_of_refused h, List.length_cons,
            List.length_cons, ← ih taken]
          omega

theorem sublist_accepted (taken : List String) (items : List (String × α)) :
    (accepted taken items).Sublist items := by
  induction items generalizing taken with
  | nil => exact .slnil
  | cons item rest ih =>
      cases h : refusal? taken item.1 with
      | none =>
          rw [accepted_cons_of_free h]
          exact (ih _).cons_cons item
      | some fault =>
          rw [accepted_cons_of_refused h]
          exact (ih _).cons item

/-- Nothing is reported exactly if all entries are accepted. -/
theorem refusals_eq_nil_iff {items : List (String × α)} :
    refusals taken items = [] ↔ accepted taken items = items := by
  have hlength := length_accepted_add_length_refusals taken items
  constructor
  · intro h
    rw [h, List.length_nil, Nat.add_zero] at hlength
    exact (sublist_accepted taken items).eq_of_length hlength
  · intro h
    rw [h] at hlength
    exact List.length_eq_zero_iff.1 (by omega)

/-! ### Verdicts by what stands before -/

/-- A name that was refused is not put in use, and whether other names can be used does not depend
on it. -/
theorem refusal?_insert_of_refused (h : refusal? taken name = some fault) (more : List String)
    (other : String) : refusal? (taken ++ name :: more) other = refusal? (taken ++ more) other := by
  by_cases hother : other = name
  · subst hother
    -- the name is refused for the same reason, as it was refused before
    by_cases hempty : other = ""
    · simp [refusal?, hempty]
    · by_cases hseparator : Path.separator ∈ other.toList
      · simp [refusal?, hempty, hseparator]
      · have htaken : other ∈ taken := by
          by_contra hfree
          rw [refusal?_eq_none_iff.2 ⟨hempty, hseparator, hfree⟩] at h
          cases h
        simp [refusal?, hempty, hseparator, htaken]
  · simp [refusal?, hother]

/-- It is all one for a verdict which of the entries before were accepted. -/
theorem refusal?_accepted (taken : List String) (earlier : List (String × α)) (name : String) :
    refusal? (taken ++ Keyed.names (accepted taken earlier)) name
      = refusal? (taken ++ Keyed.names earlier) name := by
  induction earlier generalizing taken with
  | nil => rfl
  | cons item rest ih =>
      cases h : refusal? taken item.1 with
      | none =>
          have hrest := ih (taken ++ [item.1])
          rw [List.append_assoc, List.append_assoc] at hrest
          rw [accepted_cons_of_free h]
          exact hrest
      | some fault =>
          rw [accepted_cons_of_refused h, ih]
          exact (refusal?_insert_of_refused h (Keyed.names rest) name).symm

theorem accepted_append (taken : List String) (earlier later : List (String × α)) :
    accepted taken (earlier ++ later)
      = accepted taken earlier
        ++ accepted (taken ++ Keyed.names (accepted taken earlier)) later := by
  induction earlier generalizing taken with
  | nil => rw [accepted, Keyed.names, List.map_nil, List.append_nil]; rfl
  | cons item rest ih =>
      rw [List.cons_append]
      cases h : refusal? taken item.1 with
      | none =>
          rw [accepted_cons_of_free h, accepted_cons_of_free h, ih, List.append_assoc]
          rfl
      | some fault => rw [accepted_cons_of_refused h, accepted_cons_of_refused h, ih]

/-- **The first entry of a name is accepted**, if the name can be used at all. -/
theorem accepted_concat (taken : List String) (earlier : List (String × α)) (item : String × α) :
    accepted taken (earlier ++ [item])
      = if item.1 ≠ "" ∧ Path.separator ∉ item.1.toList ∧ item.1 ∉ taken
            ∧ item.1 ∉ Keyed.names earlier
        then accepted taken earlier ++ [item] else accepted taken earlier := by
  have hverdict : refusal? (taken ++ Keyed.names (accepted taken earlier)) item.1 = none
      ↔ item.1 ≠ "" ∧ Path.separator ∉ item.1.toList ∧ item.1 ∉ taken
          ∧ item.1 ∉ Keyed.names earlier := by
    rw [refusal?_accepted, refusal?_eq_none_iff, List.mem_append, not_or]
  rw [accepted_append]
  cases h : refusal? (taken ++ Keyed.names (accepted taken earlier)) item.1 with
  | none => rw [accepted_cons_of_free h, if_pos (hverdict.1 h), accepted]
  | some fault =>
      have hrefused := mt hverdict.2 (h ▸ Option.some_ne_none fault)
      rw [accepted_cons_of_refused h, if_neg hrefused, accepted, List.append_nil]

theorem refusals_append (taken : List String) (earlier later : List (String × α)) :
    refusals taken (earlier ++ later)
      = refusals taken earlier
        ++ refusals (taken ++ Keyed.names (accepted taken earlier)) later := by
  induction earlier generalizing taken with
  | nil => rw [accepted, Keyed.names, List.map_nil, List.append_nil]; rfl
  | cons item rest ih =>
      rw [List.cons_append]
      cases h : refusal? taken item.1 with
      | none =>
          rw [refusals_cons_of_free h, refusals_cons_of_free h, accepted_cons_of_free h, ih,
            List.append_assoc]
          rfl
      | some fault =>
          rw [refusals_cons_of_refused h, refusals_cons_of_refused h, accepted_cons_of_refused h,
            ih, List.cons_append]

/-- Each entry that is refused adds its fault to those before it. -/
theorem refusals_concat (taken : List String) (earlier : List (String × α)) (item : String × α) :
    refusals taken (earlier ++ [item])
      = refusals taken earlier ++ (refusal? (taken ++ Keyed.names earlier) item.1).toList := by
  rw [refusals_append, ← refusal?_accepted]
  cases h : refusal? (taken ++ Keyed.names (accepted taken earlier)) item.1 with
  | none => rw [refusals_cons_of_free h, refusals, Option.toList_none]
  | some fault => rw [refusals_cons_of_refused h, refusals, Option.toList_some]

end Verdicts

/-! ### One circuit -/

section One

variable {a : Assembly} {name : String} {fragment : Fragment} {c : Circuit}

/-- What names are refused with is caught and reported. -/
theorem isRefusal_of_refused {taken : List String} {fault : Fault}
    (h : refusal? taken name = some fault) : isRefusal fault = true := by
  rw [refusal?] at h
  split_ifs at h <;> cases h <;> rfl

/-- What is reported of a circuit is the refusal of its name. -/
theorem addOrReport_eq (name : String) (hopen : a.consumed = false)
    (hc : fragment.circuit? = .ok c) :
    addOrReport (name, fragment) a = match refusal? (Keyed.names a.schemes) name with
      | none => .ok none (a.withCircuit name c)
      | some fault => .ok (some fault) a := by
  rw [addOrReport, add_eq name hopen hc]
  cases h : refusal? (Keyed.names a.schemes) name with
  | none => rfl
  | some fault => exact if_pos (isRefusal_of_refused h)

end One

/-! ### Lists of circuits -/

section Many

variable {a : Assembly}

/-- An assembly with more circuits. -/
def withCircuits (a : Assembly) (added : Keyed Circuit) : Assembly :=
  { a with
    schemes := a.schemes ++ added
    positioner := (Keyed.names added).getLast?.elim a.positioner a.positioner.noteAdded }

/-- The circuits under the names of the items. -/
def Becomes (items : List (String × Fragment)) (added : Keyed Circuit) : Prop :=
  List.Forall₂ (fun item entry => entry.1 = item.1 ∧ item.2.circuit? = .ok entry.2) items added

theorem withCircuits_nil (a : Assembly) : a.withCircuits [] = a := by
  rw [withCircuits, List.append_nil]
  rfl

theorem withCircuits_cons (a : Assembly) (name : String) (c : Circuit) (rest : Keyed Circuit) :
    a.withCircuits ((name, c) :: rest) = (a.withCircuit name c).withCircuits rest := by
  have hlast : (Keyed.names ((name, c) :: rest)).getLast?.elim a.positioner a.positioner.noteAdded
      = (Keyed.names rest).getLast?.elim (a.positioner.noteAdded name)
          (a.positioner.noteAdded name).noteAdded := by
    rw [show Keyed.names ((name, c) :: rest) = name :: Keyed.names rest from rfl,
      List.getLast?_cons, Option.elim_some]
    cases (Keyed.names rest).getLast? with
    | none => rfl
    | some last => exact (Positioner.noteAdded_noteAdded _ _ _).symm
  simp only [withCircuits, withCircuit, hlast, List.append_assoc, List.singleton_append]

/-- The circuits are tried one after the other: those whose names are accepted are added as if there
were no others, and the faults of the others are kept. -/
theorem mapM_addOrReport (hopen : a.consumed = false) {items : List (String × Fragment)}
    (hcircuits : ∀ item ∈ items, ∃ c, item.2.circuit? = .ok c) :
    ∃ reports added, Becomes (accepted (Keyed.names a.schemes) items) added
      ∧ items.mapM addOrReport a = .ok reports (a.withCircuits added)
      ∧ reports.filterMap id = refusals (Keyed.names a.schemes) items
      ∧ ((accepted (Keyed.names a.schemes) items).forM fun item => add item.1 item.2) a
        = .ok () (a.withCircuits added) := by
  induction items generalizing a with
  | nil => exact ⟨[], [], .nil, by rw [withCircuits_nil]; rfl, rfl, by rw [withCircuits_nil]; rfl⟩
  | cons item rest ih =>
      obtain ⟨name, fragment⟩ := item
      obtain ⟨c, hc⟩ : ∃ c, fragment.circuit? = .ok c := hcircuits _ List.mem_cons_self
      have hrest : ∀ item ∈ rest, ∃ c, item.2.circuit? = .ok c :=
        fun item hitem => hcircuits item (List.mem_cons_of_mem _ hitem)
      have hreport := addOrReport_eq name hopen hc
      have hadd := add_eq name hopen hc
      rw [List.mapM_cons]
      cases h : refusal? (Keyed.names a.schemes) name with
      | none =>
          rw [h] at hreport hadd
          obtain ⟨reports, added, hbecomes, hmap, hfaults, hforM⟩ :=
            ih (a := a.withCircuit name c) hopen hrest
          have hnames : Keyed.names (a.withCircuit name c).schemes
              = Keyed.names a.schemes ++ [name] := List.map_append
          rw [hnames] at hbecomes hfaults hforM
          refine ⟨none :: reports, (name, c) :: added, ?_, ?_, ?_, ?_⟩
          · rw [accepted_cons_of_free h]
            exact .cons ⟨rfl, hc⟩ hbecomes
          · rw [Loop.bind_of_ok hreport, Loop.bind_of_ok hmap, withCircuits_cons]
            rfl
          · rw [refusals_cons_of_free h]
            exact hfaults
          · rw [accepted_cons_of_free h, withCircuits_cons]
            exact (Loop.forM_cons_of_ok (f := fun item : String × Fragment => add item.1 item.2)
              hadd).trans hforM
      | some fault =>
          rw [h] at hreport
          obtain ⟨reports, added, hbecomes, hmap, hfaults, hforM⟩ := ih hopen hrest
          refine ⟨some fault :: reports, added, ?_, ?_, ?_, ?_⟩
          · rw [accepted_cons_of_refused h]
            exact hbecomes
          · rw [Loop.bind_of_ok hreport, Loop.bind_of_ok hmap]
            rfl
          · rw [refusals_cons_of_refused h, ← hfaults]
            rfl
          · rw [accepted_cons_of_refused h]
            exact hforM

/-- The assembly is left as by the accepted circuits alone, and the refused ones are reported. -/
theorem addAll_eq (hopen : a.consumed = false) {items : List (String × Fragment)}
    (hcircuits : ∀ item ∈ items, ∃ c, item.2.circuit? = .ok c) :
    ∃ added, Becomes (accepted (Keyed.names a.schemes) items) added
      ∧ ((accepted (Keyed.names a.schemes) items).forM fun item => add item.1 item.2) a
        = .ok () (a.withCircuits added)
      ∧ addAll items a
        = if refusals (Keyed.names a.schemes) items = [] then .ok () (a.withCircuits added)
          else .error (.several (refusals (Keyed.names a.schemes) items))
            (a.withCircuits added) := by
  obtain ⟨reports, added, hbecomes, hmap, hfaults, hforM⟩ := mapM_addOrReport hopen hcircuits
  refine ⟨added, hbecomes, hforM, ?_⟩
  rw [addAll, Loop.bind_of_ok hmap, hfaults]
  cases refusals (Keyed.names a.schemes) items <;> rfl

/-- Only the circuits matter that are offered. -/
theorem addOrReport_congr {name : String} {f g : Fragment} (h : f.circuit? = g.circuit?) :
    addOrReport (name, f) = addOrReport (name, g) := by
  funext a
  simp only [addOrReport, add, h]

/-- Copies of a circuit are added as a list of circuits under its names. -/
theorem addCopies_eq {fragment : Fragment} {c : Circuit} (hc : fragment.circuit? = .ok c)
    (names : List String) (a : Assembly) :
    addCopies names fragment a = addAll (names.map fun name => (name, fragment)) a := by
  have hreport : (addOrReport ∘ fun name => (name, Fragment.circuit c))
      = addOrReport ∘ fun name => (name, fragment) :=
    funext fun name => addOrReport_congr hc.symm
  rw [addCopies, hc, Loop.bind_of_ok (answer_ok c a), addAll, addAll, List.mapM_map, List.mapM_map,
    hreport]

/-- The circuit that was added last is the last accepted one. -/
theorem positioner_withCircuits {p : Placements} (hp : a.positioner = .manual p)
    (added : Keyed Circuit) : (a.withCircuits added).positioner
      = .manual { p with last := (Keyed.names added).getLast?.or p.last } := by
  rw [withCircuits, hp]
  cases (Keyed.names added).getLast? <;> rfl

theorem Becomes.names_eq {items : List (String × Fragment)} {added : Keyed Circuit}
    (h : Becomes items added) : Keyed.names added = Keyed.names items := by
  induction h with
  | nil => rfl
  | cons hentry _ ih => exact congr (congrArg List.cons hentry.1) ih

/-- **A list of circuits is added as far as it can be.**  The circuits are added in order whose
names are not empty, have no separator, and differ from the names in use and from those accepted
before them, exactly as if the others were not in the list; of several circuits of one name that is
the first.  The circuit that was added last is the last of them, or the one before if there is none.
The list fails exactly if some circuit was refused, with one fault for each in the order of the
list.  Copies of a circuit are added as such a list. -/
theorem addAll_applies (hopen : a.consumed = false) {items : List (String × Fragment)}
    (hcircuits : ∀ item ∈ items, ∃ c, item.2.circuit? = .ok c) :
    (∃ b added, Becomes (accepted (Keyed.names a.schemes) items) added
      ∧ ((accepted (Keyed.names a.schemes) items).forM fun item => add item.1 item.2) a = .ok () b
      ∧ b.schemes = a.schemes ++ added
      ∧ (∀ p, a.positioner = .manual p → b.positioner = .manual { p with
          last := (Keyed.names (accepted (Keyed.names a.schemes) items)).getLast?.or p.last })
      ∧ addAll items a
        = if refusals (Keyed.names a.schemes) items = [] then .ok () b
          else .error (.several (refusals (Keyed.names a.schemes) items)) b) ∧
    (∀ (earlier : List (String × Fragment)) (item : String × Fragment),
      accepted (Keyed.names a.schemes) (earlier ++ [item])
          = (if item.1 ≠ "" ∧ Path.separator ∉ item.1.toList ∧ item.1 ∉ Keyed.names a.schemes
              ∧ item.1 ∉ Keyed.names earlier
            then accepted (Keyed.names a.schemes) earlier ++ [item]
            else accepted (Keyed.names a.schemes) earlier)
        ∧ refusals (Keyed.names a.schemes) (earlier ++ [item])
          = refusals (Keyed.names a.schemes) earlier
            ++ (refusal? (Keyed.names a.schemes ++ Keyed.names earlier) item.1).toList) ∧
    (refusals (Keyed.names a.schemes) items = []
      ↔ accepted (Keyed.names a.schemes) items = items) ∧
    (accepted (Keyed.names a.schemes) items).length
        + (refusals (Keyed.names a.schemes) items).length = items.length ∧
    ∀ (names : List String) (fragment : Fragment), (∃ c, fragment.circuit? = .ok c) →
      addCopies names fragment a = addAll (names.map fun name => (name, fragment)) a := by
  obtain ⟨added, hbecomes, hforM, hall⟩ := addAll_eq hopen hcircuits
  refine ⟨⟨a.withCircuits added, added, hbecomes, hforM, rfl, fun p hp => ?_, hall⟩,
    fun earlier item => ⟨accepted_concat _ earlier item, refusals_concat _ earlier item⟩,
    refusals_eq_nil_iff, length_accepted_add_length_refusals _ _, ?_⟩
  · rw [positioner_withCircuits hp, hbecomes.names_eq]
  · rintro names fragment ⟨c, hc⟩
    exact addCopies_eq hc names a

/-- Circuits of which two can be added, one of them the first of its name. -/
def cargo : List (String × Fragment) :=
  [("top", .circuit quay), ("top", .circuit twoGates), ("", .circuit quay), ("a/b", .circuit quay),
    ("left", .circuit quay), ("pier", .circuit twoGates)]

theorem addAll_applies_cargo :
    harbour.consumed = false ∧ (∀ item ∈ cargo, ∃ c, item.2.circuit? = .ok c)
      ∧ (∃ b, addAll cargo harbour = .error (.several [.schemeNameTaken "top",
            .invalidName "" "Scheme" .empty, .invalidName "a/b" "Scheme" .separator,
            .schemeNameTaken "left"]) b
          ∧ Keyed.names b.schemes = ["left", "right", "top", "pier"]
          ∧ ∃ p, b.positioner = .manual p ∧ p.last = some "pier")
      ∧ addCopies ["x", "x"] (.circuit quay) harbour
        = addAll [("x", .circuit quay), ("x", .circuit quay)] harbour := by
  have hcircuits : ∀ item ∈ cargo, ∃ c, item.2.circuit? = .ok c := by
    simp [cargo, Fragment.circuit?]
  have haccepted : accepted (Keyed.names harbour.schemes) cargo
      = [("top", .circuit quay), ("pier", .circuit twoGates)] := rfl
  have hrefusals : refusals (Keyed.names harbour.schemes) cargo
      = [.schemeNameTaken "top", .invalidName "" "Scheme" .empty,
        .invalidName "a/b" "Scheme" .separator, .schemeNameTaken "left"] := rfl
  obtain ⟨⟨b, added, hbecomes, _, hschemes, hpositioner, hall⟩, _, _, _, hcopies⟩ :=
    addAll_applies (a := harbour) rfl hcircuits
  rw [hrefusals, if_neg (List.cons_ne_nil _ _)] at hall
  have hadded := hbecomes.names_eq
  rw [haccepted] at hadded
  refine ⟨rfl, hcircuits, ⟨b, hall, ?_, _, hpositioner _ rfl, ?_⟩,
    hcopies ["x", "x"] (.circuit quay) ⟨quay, rfl⟩⟩
  · rw [hschemes, Keyed.names, List.map_append]
    exact congrArg (["left", "right"] ++ ·) hadded
  · rw [haccepted]
    rfl

end Many

end Assembly

end Breadboard
