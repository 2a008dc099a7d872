import Breadboard.Proofs.Assembly.Designs

/-!
**Paths that lead nowhere.**

A link or an entry of a plan whose path leads nowhere is left out and reported, and does nothing
else: the links and the entries around it are followed as if it had never been there.  So an
assembly is compiled to the same circuit after all such links and entries have been taken out of it,
and then there is nothing to report.

Main definitions:

* `Assembly.leads`, `Assembly.Lacks` — a path leads to a sector, or the first part of it that does
  not exist;
* `Assembly.broken`, `SlotPlan.lost` — the links and the entries that are left out;
* `Assembly.pruned` — the assembly without them;
* `Assembly.Reports` — diagnostics that list exactly what is left out.

Main results:

* `Assembly.Lacks.unique` — the part that a path lacks first is determined;
* `Assembly.resolve_scopeOf` — a path is looked up by what it leads to, or by what it lacks;
* `Assembly.make_pruned`, `Assembly.foldlM_draw_pruned` — **what is left out does nothing else**, in
  a plan and among the links;
* `Assembly.compile_pruned` — **compiling without the links and entries that are left out**.
-/

set_option autoImplicit false
set_option relaxedAutoImplicit false

namespace Breadboard

namespace Assembly

/-! ### What a path leads to, and what it lacks -/

/-- The path leads to a sector of a slot of one of the circuits. -/
def leads (schemes : Keyed Circuit) (side : Side) (path : String) : Bool :=
  let parts := Path.read defaultSlot path
  ((Keyed.find? parts.scheme schemes).bind fun c =>
    (Circuit.findSlot? parts.slot (c.slots side)).bind fun slot =>
      slot.getSector? parts.sector).isSome

/-- The first part of a path that does not exist: there is no such circuit, the circuit has no such
slot on this side, or the slot has no such sector. -/
inductive Lacks (schemes : Keyed Circuit) (side : Side) (path : String) : Missing → Prop where
  | scheme (none : Keyed.find? (Path.read defaultSlot path).scheme schemes = none) :
      Lacks schemes side path (.noScheme path (Path.read defaultSlot path).scheme)
  | slot {c : Circuit} (found : Keyed.find? (Path.read defaultSlot path).scheme schemes = some c)
      (none : ∀ s ∈ c.slots side, s.name ≠ (Path.read defaultSlot path).slot) :
      Lacks schemes side path
        (.noSlot path (Path.read defaultSlot path).scheme (Path.read defaultSlot path).slot)
  | sector {c : Circuit} {s : Slot}
      (found : Keyed.find? (Path.read defaultSlot path).scheme schemes = some c)
      (shown : Circuit.findSlot? (Path.read defaultSlot path).slot (c.slots side) = some s)
      (named : (Path.read defaultSlot path).sector ≠ wholeSector)
      (none : (Path.read defaultSlot path).sector ∉ Keyed.names s.sectors) :
      Lacks schemes side path
        (.noSector path (Path.read defaultSlot path).scheme (Path.read defaultSlot path).slot
          (Path.read defaultSlot path).sector)

theorem findSlot?_eq_none_iff {name : String} {slots : List Slot} :
    Circuit.findSlot? name slots = none ↔ ∀ s ∈ slots, s.name ≠ name := by
  simp [Circuit.findSlot?]

theorem getSector?_eq_none_iff {s : Slot} {name : String} :
    s.getSector? name = none ↔ name ≠ wholeSector ∧ name ∉ Keyed.names s.sectors := by
  rw [Slot.getSector?, ← Keyed.has_iff, Keyed.has]
  split
  · rename_i h
    simp [h]
  · rename_i h
    simp [h]

/-- A path lacks no more than one part first. -/
theorem Lacks.unique {schemes : Keyed Circuit} {side : Side} {path : String} {m n : Missing}
    (hm : Lacks schemes side path m) (hn : Lacks schemes side path n) : m = n := by
  cases hm <;> cases hn <;> simp_all [← findSlot?_eq_none_iff]

section Paths

variable {places : Keyed (Point × Turn)} {base : Int} {schemes : Keyed Circuit}
  {blocks : List Block} {side : Side} {path : String}

/-- The slots that paths find under a name are those of the circuit of that name. -/
theorem find?_scopeOf (h : layOut places base schemes = .ok blocks) (side : Side) (name : String) :
    ((scopeOf blocks side).find? name).map ScopeEntry.slots
      = (Keyed.find? name schemes).map fun c => c.slots side := by
  induction schemes generalizing base blocks with
  | nil => cases h; rfl
  | cons s rest ih =>
      obtain ⟨n, c⟩ := s
      obtain ⟨units, _, h⟩ := Fault.bind_eq_ok_iff.1 h
      obtain ⟨later, hlater, h⟩ := Fault.bind_eq_ok_iff.1 h
      cases h
      have hrest := ih hlater
      simp only [Scope.find?, scopeOf] at hrest
      rw [Keyed.find?_cons, Scope.find?, scopeOf, List.map_cons, List.find?_cons]
      by_cases hn : n = name
      · cases side <;> simp [Block.scopeEntry, Circuit.slots, hn]
      · have hentry : ((⟨n, base, units, c.inputs, c.outputs⟩ : Block).scopeEntry side).scheme
            = n := by cases side <;> rfl
        rw [hentry, beq_eq_false_iff_ne.2 hn, if_neg hn]
        exact hrest

/-- **A path is looked up by what it leads to, or by what it lacks.** -/
theorem resolve_scopeOf (h : layOut places base schemes = .ok blocks) (side : Side)
    (path : String) :
    (leads schemes side path = true ∧ ∃ t, (scopeOf blocks side).resolve path = .ok t)
      ∨ (leads schemes side path = false
        ∧ ∃ m, (scopeOf blocks side).resolve path = .error m ∧ Lacks schemes side path m) := by
  have hfind := find?_scopeOf h side (Path.read defaultSlot path).scheme
  simp only [Scope.resolve, leads]
  cases hc : Keyed.find? (Path.read defaultSlot path).scheme schemes with
  | none =>
      rw [hc, Option.map_none, Option.map_eq_none_iff] at hfind
      rw [hfind]
      exact .inr ⟨rfl, _, rfl, .scheme hc⟩
  | some c =>
      rw [hc, Option.map_some, Option.map_eq_some_iff] at hfind
      obtain ⟨entry, hentry, hslots⟩ := hfind
      simp only [hentry, hslots, Option.bind_some]
      cases hs : Circuit.findSlot? (Path.read defaultSlot path).slot (c.slots side) with
      | none => exact .inr ⟨rfl, _, rfl, .slot hc (findSlot?_eq_none_iff.1 hs)⟩
      | some s =>
          simp only [Option.bind_some]
          cases hk : s.getSector? (Path.read defaultSlot path).sector with
          | none =>
              obtain ⟨hnamed, hnone⟩ := getSector?_eq_none_iff.1 hk
              exact .inr ⟨rfl, _, rfl, .sector hc hs hnamed hnone⟩
          | some sector => exact .inl ⟨rfl, _, rfl⟩

end Paths

end Assembly

/-! ### Lists of which a part is left out -/

/-- What maps the entries that are left out to nothing maps the others to the same as all. -/
theorem Loop.mapM_filter_flatten {α β : Type} {f : α → Except Fault (List β)} (keep : α → Bool)
    {l : List α} {r : List (List β)} (h : l.mapM f = .ok r)
    (hleft : ∀ a ∈ l, keep a = false → f a = .ok []) :
    ∃ r', (l.filter keep).mapM f = .ok r' ∧ r'.flatten = r.flatten := by
  have hall := Loop.mapM_eq_ok_iff.1 h
  clear h
  induction hall with
  | nil => exact ⟨[], rfl, rfl⟩
  | @cons a b l r hfirst _ ih =>
      obtain ⟨r', hr', hflat⟩ := ih fun c hc => hleft c (List.mem_cons_of_mem a hc)
      cases hkeep : keep a with
      | true =>
          refine ⟨b :: r', ?_, by rw [List.flatten_cons, List.flatten_cons, hflat]⟩
          rw [List.filter_cons_of_pos hkeep, List.mapM_cons, hfirst, hr']
          rfl
      | false =>
          have hnothing := hleft a List.mem_cons_self hkeep
          rw [hfirst] at hnothing
          cases hnothing
          refine ⟨r', ?_, by rw [List.flatten_cons, List.nil_append, hflat]⟩
          rwa [List.filter_cons_of_neg (by rw [hkeep]; exact Bool.false_ne_true)]

/-- One report for each entry that is left out, and none for the others. -/
theorem forall₂_filter_flatMap {α β : Type} {R : α → β → Prop} {left : α → Bool}
    {report : α → List β} {l : List α} (hkept : ∀ a ∈ l, left a = false → report a = [])
    (hleft : ∀ a ∈ l, left a = true → ∃ b, report a = [b] ∧ R a b) :
    List.Forall₂ R (l.filter left) (l.flatMap report) := by
  induction l with
  | nil => exact .nil
  | cons a rest ih =>
      have hrest := ih (fun b hb => hkept b (List.mem_cons_of_mem a hb))
        fun b hb => hleft b (List.mem_cons_of_mem a hb)
      rw [List.flatMap_cons]
      cases ha : left a with
      | true =>
          obtain ⟨b, hb, hab⟩ := hleft a List.mem_cons_self ha
          rw [List.filter_cons_of_pos ha, hb]
          exact .cons hab hrest
      | false =>
          rw [List.filter_cons_of_neg (by rw [ha]; exact Bool.false_ne_true),
            hkept a List.mem_cons_self ha]
          exact hrest

/-- Two lists side by side, of which the same entries are kept. -/
theorem forall₂_filter {α β : Type} {R : α → β → Prop} {p : α → Bool} {q : β → Bool} {l : List α}
    {r : List β} (h : List.Forall₂ R l r) (hpq : ∀ a b, R a b → p a = q b) :
    List.Forall₂ R (l.filter p) (r.filter q) := by
  induction h with
  | nil => exact .nil
  | @cons a b l r hab _ ih =>
      rw [List.filter_cons, List.filter_cons, ← hpq a b hab]
      split
      · exact .cons hab ih
      · exact ih

/-! ### Plans -/

namespace SlotPlan

/-- The entries of a plan whose paths lead nowhere, with their places in the plan. -/
def lost (plan : SlotPlan) (schemes : Keyed Circuit) (side : Side) : List (PlanEntry × Nat) :=
  plan.entries.zipIdx.filter fun entry => !Assembly.leads schemes side entry.1.path

/-- The plan without these entries. -/
def pruned (schemes : Keyed Circuit) (side : Side) (plan : SlotPlan) : SlotPlan :=
  { plan with entries := plan.entries.filter fun entry => Assembly.leads schemes side entry.path }

end SlotPlan

namespace Assembly

section Slots

variable {places : Keyed (Point × Turn)} {schemes : Keyed Circuit} {blocks : List Block}
  {side : Side}

/-- The reports on entries, each with its place and with what its path lacks. -/
def ReportsEntries (schemes : Keyed Circuit) (side : Side) :
    List (PlanEntry × Nat) → List Unresolved → Prop :=
  List.Forall₂ fun entry report =>
    report.entry = entry.2 ∧ Lacks schemes side entry.1.path report.missing

/-- **An entry that is left out does nothing else**: the plan without these entries makes the same
slot, and they are what is reported. -/
theorem make_pruned (h : layOut places 0 schemes = .ok blocks) {plan : SlotPlan} {s : Slot}
    {missing : List Unresolved} (hmade : plan.make (scopeOf blocks side) side = .ok (s, missing)) :
    (plan.pruned schemes side).make (scopeOf blocks side) side = .ok (s, [])
      ∧ ReportsEntries schemes side (plan.lost schemes side) missing := by
  obtain ⟨hsize, items, hitems, rfl, rfl⟩ := SlotPlan.make_eq_ok_iff.1 hmade
  constructor
  · -- what the entries that are left out put behind points is nothing
    obtain ⟨kept, hkept, hflat⟩ := Loop.mapM_filter_flatten
      (fun entry => leads schemes side entry.path) hitems fun entry _ hlost => by
        rcases resolve_scopeOf h side entry.path with ⟨hleads, _⟩ | ⟨_, m, hm, _⟩
        · rw [hleads] at hlost
          cases hlost
        · simp only [SlotPlan.entryCells, hm]
    have hnothing : (plan.pruned schemes side).entries.zipIdx.flatMap
        (SlotPlan.unresolved (scopeOf blocks side)) = [] := by
      rw [List.flatMap_eq_nil_iff]
      rintro ⟨entry, k⟩ hentry
      have hleads : leads schemes side entry.path = true :=
        (List.mem_filter.1 (List.fst_mem_of_mem_zipIdx hentry)).2
      rcases resolve_scopeOf h side entry.path with ⟨_, t, ht⟩ | ⟨hlost, _⟩
      · simp only [SlotPlan.unresolved, ht]
      · rw [hleads] at hlost
        cases hlost
    refine SlotPlan.make_eq_ok_iff.2 ⟨hsize, kept, hkept, ?_, hnothing.symm⟩
    rw [SlotPlan.filledWith, SlotPlan.filledWith, hflat]
    rfl
  · refine forall₂_filter_flatMap (fun entry _ hkept => ?_) fun entry _ hlost => ?_
    · rcases resolve_scopeOf h side entry.1.path with ⟨_, t, ht⟩ | ⟨hlost, _⟩
      · simp only [SlotPlan.unresolved, ht]
      · simp [hlost] at hkept
    · rcases resolve_scopeOf h side entry.1.path with ⟨hleads, _⟩ | ⟨_, m, hm, hlacks⟩
      · simp [hleads] at hlost
      · exact ⟨⟨entry.2, m⟩, by simp only [SlotPlan.unresolved, hm], rfl, hlacks⟩

/-- The reports on plans: one for each plan with entries that are left out, by the name of the
plan. -/
def ReportsPlans (schemes : Keyed Circuit) (side : Side) (plans : List SlotPlan) :
    Keyed (List Unresolved) → Prop :=
  List.Forall₂ (fun plan report =>
      report.1 = plan.name ∧ ReportsEntries schemes side (plan.lost schemes side) report.2)
    (plans.filter fun plan => !(plan.lost schemes side).isEmpty)

/-- The planned slots of a side are the same without the entries that are left out. -/
theorem makeSlots_pruned (h : layOut places 0 schemes = .ok blocks) {plans : List SlotPlan}
    {made : List Slot × Keyed (List Unresolved)}
    (hmade : makeSlots plans (scopeOf blocks side) side = .ok made) :
    makeSlots (plans.map (SlotPlan.pruned schemes side)) (scopeOf blocks side) side
        = .ok (made.1, [])
      ∧ ReportsPlans schemes side plans made.2 := by
  obtain ⟨all, hall, hmade⟩ := Fault.bind_eq_ok_iff.1 hmade
  cases hmade
  have hplans := Loop.mapM_eq_ok_iff.1 hall
  refine ⟨makeSlots_eq_ok ?_, ?_⟩
  · rw [List.forall₂_map_left_iff, List.forall₂_map_right_iff]
    exact hplans.imp fun plan m hm => (make_pruned h hm).1
  · -- a plan has a report exactly if entries of it are left out
    rw [ReportsPlans, List.forall₂_map_right_iff]
    refine forall₂_filter (hplans.imp fun plan m hm => ?_) fun plan m hreports => ?_
    · have hname : m.1.name = plan.name := by
        obtain ⟨_, _, _, hslot, _⟩ := SlotPlan.make_eq_ok_iff.1 hm
        rw [hslot]
        rfl
      exact ⟨hname, (make_pruned h hm).2⟩
    · have hlength : (plan.lost schemes side).length = m.2.length := hreports.2.length_eq
      rw [Bool.eq_iff_iff]
      simp [← List.length_eq_zero_iff, hlength]

end Slots

/-! ### Links -/

/-- Both paths of a link lead to sectors: the source to one of an output, the target to one of an
input. -/
def connects (schemes : Keyed Circuit) (link : Link) : Bool :=
  leads schemes .output link.source && leads schemes .input link.target

/-- The reasons that one path of a link gives for leaving the link out: one if it leads nowhere. -/
inductive Reasons (schemes : Keyed Circuit) (side : Side) (path : String) : List Missing → Prop where
  | none (found : leads schemes side path = true) : Reasons schemes side path []
  | one {missing : Missing} (lacks : Lacks schemes side path missing) :
      Reasons schemes side path [missing]

/-- The report on a link that is left out, with the reasons of its source before those of its
target. -/
def ReportsLink (schemes : Keyed Circuit) (link : Link) (report : BrokenLink) : Prop :=
  report.link = link ∧ ∃ sources targets, report.reasons = sources ++ targets
    ∧ Reasons schemes .output link.source sources ∧ Reasons schemes .input link.target targets

section Links

variable {places : Keyed (Point × Turn)} {schemes : Keyed Circuit} {blocks : List Block}

/-- A path that leads nowhere is the reason for leaving a link out. -/
theorem reasons_resolve (h : layOut places 0 schemes = .ok blocks) (side : Side) (path : String) :
    (∃ t, (scopeOf blocks side).resolve path = .ok t ∧ leads schemes side path = true
        ∧ Reasons schemes side path [])
      ∨ ∃ m, (scopeOf blocks side).resolve path = .error m ∧ leads schemes side path = false
        ∧ Reasons schemes side path [m] := by
  rcases resolve_scopeOf h side path with ⟨hleads, t, ht⟩ | ⟨hlost, m, hm, hlacks⟩
  · exact .inl ⟨t, ht, hleads, .none hleads⟩
  · exact .inr ⟨m, hm, hlost, .one hlacks⟩

/-- A link of which both paths lead somewhere is drawn, whatever was left out before. -/
theorem draw_of_connects (h : layOut places 0 schemes = .ok blocks) {link : Link}
    (hlink : connects schemes link = true) :
    ∃ drawn : List Element → Except Fault (List Element), ∀ units broken,
      draw (scopeOf blocks .output) (scopeOf blocks .input) (units, broken) link = (do
        pure (← drawn units, broken)) := by
  obtain ⟨hsource, htarget⟩ := Bool.and_eq_true_iff.1 hlink
  rcases reasons_resolve h .output link.source with ⟨s, hs, _⟩ | ⟨_, _, hlost, _⟩
  · rcases reasons_resolve h .input link.target with ⟨t, ht, _⟩ | ⟨_, _, hlost, _⟩
    · cases hpairs : link.wiring.pairs s.sector.size t.sector.size with
      | error fault =>
          refine ⟨fun _ => .error fault, fun units broken => ?_⟩
          simp only [draw, hs, ht, hpairs, Fault.error_bind]
      | ok proposed =>
          refine ⟨fun units => (Frame.liftPairs s.frame t.frame proposed).foldlM (drawPair s t)
            units, fun units broken => ?_⟩
          simp only [draw, hs, ht, hpairs, Fault.ok_bind]
    · rw [htarget] at hlost
      cases hlost
  · rw [hsource] at hlost
    cases hlost

/-- A link with a path that leads nowhere is reported, and draws nothing. -/
theorem draw_of_not_connects (h : layOut places 0 schemes = .ok blocks) {link : Link}
    (hlink : connects schemes link = false) :
    ∃ report, ReportsLink schemes link report ∧ ∀ units broken,
      draw (scopeOf blocks .output) (scopeOf blocks .input) (units, broken) link
        = .ok (units, broken ++ [report]) := by
  rcases reasons_resolve h .output link.source with ⟨s, hs, hleads, hsource⟩ | ⟨m, hm, _, hsource⟩
    <;> rcases reasons_resolve h .input link.target with
      ⟨t, ht, hleads', htarget⟩ | ⟨n, hn, _, htarget⟩
  · rw [connects, hleads, hleads'] at hlink
    cases hlink
  · exact ⟨⟨link, [n]⟩, ⟨rfl, [], [n], rfl, hsource, htarget⟩, fun units broken => by
      simp only [draw, hs, hn, missingParts]
      rfl⟩
  · exact ⟨⟨link, [m]⟩, ⟨rfl, [m], [], rfl, hsource, htarget⟩, fun units broken => by
      simp only [draw, hm, ht, missingParts]
      rfl⟩
  · exact ⟨⟨link, [m, n]⟩, ⟨rfl, [m], [n], rfl, hsource, htarget⟩, fun units broken => by
      simp only [draw, hm, hn, missingParts]
      rfl⟩

/-- **A link that is left out does nothing else**: without these links the others draw the same, and
they are what is reported, in the order of the links. -/
theorem foldlM_draw_pruned (h : layOut places 0 schemes = .ok blocks) {links : List Link}
    {units units' : List Element} {broken broken' : List BrokenLink}
    (hdrawn : links.foldlM (draw (scopeOf blocks .output) (scopeOf blocks .input)) (units, broken)
      = .ok (units', broken')) :
    (∀ before, (links.filter (connects schemes)).foldlM
        (draw (scopeOf blocks .output) (scopeOf blocks .input)) (units, before)
          = .ok (units', before))
      ∧ ∃ reports, broken' = broken ++ reports
        ∧ List.Forall₂ (ReportsLink schemes) (links.filter fun link => !connects schemes link)
            reports := by
  induction links generalizing units broken with
  | nil =>
      cases hdrawn
      exact ⟨fun _ => rfl, [], by rw [List.append_nil], .nil⟩
  | cons link rest ih =>
      rw [List.foldlM_cons] at hdrawn
      obtain ⟨⟨us, bs⟩, hfirst, hdrawn⟩ := Fault.bind_eq_ok_iff.1 hdrawn
      obtain ⟨hrest, reports, hreports, hall⟩ := ih hdrawn
      cases hlink : connects schemes link with
      | true =>
          obtain ⟨drawn, hdraw⟩ := draw_of_connects h hlink
          rw [hdraw] at hfirst
          obtain ⟨_, hus, hfirst⟩ := Fault.bind_eq_ok_iff.1 hfirst
          cases hfirst
          refine ⟨fun before => ?_, reports, hreports, ?_⟩
          · rw [List.filter_cons_of_pos hlink, List.foldlM_cons, hdraw, hus]
            exact hrest before
          · rwa [List.filter_cons_of_neg (by rw [hlink]; exact Bool.false_ne_true)]
      | false =>
          obtain ⟨report, hreport, hdraw⟩ := draw_of_not_connects h hlink
          rw [hdraw] at hfirst
          cases hfirst
          refine ⟨fun before => ?_, report :: reports, ?_, ?_⟩
          · rw [List.filter_cons_of_neg (by rw [hlink]; exact Bool.false_ne_true)]
            exact hrest before
          · rw [hreports, List.append_assoc, List.singleton_append]
          · rw [List.filter_cons_of_pos (by rw [hlink]; rfl)]
            exact .cons hreport hall

end Links

/-! ### The assembly without what is left out -/

/-- The links with a path that leads nowhere. -/
def broken (a : Assembly) : List Link := a.links.filter fun link => !connects a.schemes link

/-- The assembly without the links and the entries of plans whose paths lead nowhere. -/
def pruned (a : Assembly) : Assembly :=
  { a with
    links := a.links.filter (connects a.schemes)
    inputs := a.inputs.map (SlotPlan.pruned a.schemes .input)
    outputs := a.outputs.map (SlotPlan.pruned a.schemes .output) }

/-- The entries of the plans of a side whose paths lead nowhere. -/
def lostEntries (a : Assembly) (side : Side) : List (PlanEntry × Nat) :=
  (a.plans side).flatMap fun plan => plan.lost a.schemes side

/-- Diagnostics that list what is left out, and nothing else. -/
structure Reports (a : Assembly) (d : Diagnostics) : Prop where
  links : List.Forall₂ (ReportsLink a.schemes) a.broken d.links
  inputs : ReportsPlans a.schemes .input a.inputs d.inputs
  outputs : ReportsPlans a.schemes .output a.outputs d.outputs

/-- Reports on plans have as many entries as are left out. -/
theorem ReportsPlans.countEntries {schemes : Keyed Circuit} {side : Side} {plans : List SlotPlan}
    {reports : Keyed (List Unresolved)} (h : ReportsPlans schemes side plans reports) :
    Diagnostics.countEntries reports
      = (plans.flatMap fun plan => plan.lost schemes side).length := by
  induction plans generalizing reports with
  | nil =>
      cases h
      rfl
  | cons plan rest ih =>
      rw [ReportsPlans] at h
      cases hlost : (plan.lost schemes side).isEmpty with
      | true =>
          rw [List.filter_cons_of_neg (by rw [hlost]; exact Bool.false_ne_true)] at h
          rw [List.flatMap_cons, List.isEmpty_iff.1 hlost, List.nil_append]
          exact ih h
      | false =>
          rw [List.filter_cons_of_pos (by rw [hlost]; rfl)] at h
          cases h with
          | @cons _ report _ reports hfirst hrest =>
              have hlater := ih hrest
              have hlength := hfirst.2.length_eq
              rw [Diagnostics.countEntries] at hlater ⊢
              rw [List.flatMap_cons, List.flatMap_cons, List.length_append, List.length_append,
                hlater, hlength]

/-- What is reported is as much as is left out. -/
theorem Reports.count {a : Assembly} {d : Diagnostics} (h : a.Reports d) :
    d.count = a.broken.length + (a.lostEntries .input).length
      + (a.lostEntries .output).length := by
  rw [Diagnostics.count, h.inputs.countEntries, h.outputs.countEntries, h.links.length_eq]
  rfl

/-- Linking gives the same circuit without what is left out. -/
theorem link_pruned {a : Assembly} {c : Circuit} {d : Diagnostics} (h : a.link = .ok (c, d)) :
    a.pruned.link = .ok (c, .none) ∧ a.Reports d
      ∧ ∀ side, ((a.plans side).map SlotPlan.name).Nodup := by
  obtain ⟨places, blocks, ⟨ins, badIns⟩, ⟨outs, badOuts⟩, ⟨units, reports⟩, hstages⟩ :=
    link_eq_ok_iff_stages.1 h
  obtain ⟨hplaces, hblocks, hins, houts, hlinks, hcheck, hbuilt, rfl⟩ := hstages
  obtain ⟨hins', hreportsIns⟩ := makeSlots_pruned hblocks hins
  obtain ⟨houts', hreportsOuts⟩ := makeSlots_pruned hblocks houts
  obtain ⟨hlinks', _, hreports, hbroken⟩ := foldlM_draw_pruned hblocks hlinks
  rw [List.nil_append] at hreports
  subst hreports
  refine ⟨?_, ⟨hbroken, hreportsIns, hreportsOuts⟩, fun side => ?_⟩
  · exact link_eq_ok_iff_stages.2 ⟨places, blocks, (ins, []), (outs, []), (units, []),
      { arranged := hplaces, laid := hblocks, inputs := hins', outputs := houts',
        drawn := hlinks' [], checked := hcheck, built := hbuilt, reported := rfl }⟩
  · have hnodup := Circuit.nodup_names_of_build hbuilt side
    obtain ⟨_, hslotsIn, hslotsOut, _⟩ := Circuit.build_eq_ok hbuilt
    cases side with
    | input =>
        rw [Circuit.slots, hslotsIn] at hnodup
        exact names_of_makeSlots hins ▸ hnodup
    | output =>
        rw [Circuit.slots, hslotsOut] at hnodup
        exact names_of_makeSlots houts ▸ hnodup

/-- **Compiling without the links and entries that are left out** gives the same circuit, and
nothing to report.  What is reported otherwise is exactly what is left out: the links in their
order, with a reason for each of their paths that leads nowhere, and by the names of the plans,
which are different, the entries in their order. -/
theorem compile_pruned {a a' : Assembly} {c : Circuit} {d : Diagnostics}
    (h : compile a = .ok (c, d) a') :
    compile a.pruned = .ok (c, .none) { a.pruned with consumed := true }
      ∧ a.Reports d
      ∧ (∀ side, ((a.plans side).map SlotPlan.name).Nodup)
      ∧ d.count = a.broken.length + (a.lostEntries .input).length
          + (a.lostEntries .output).length
      ∧ d.describe.length = d.count
      ∧ (d.isEmpty = true ↔ d.count = 0) := by
  obtain ⟨hopen, hlink, _⟩ := compile_eq_ok_iff.1 h
  obtain ⟨hpruned, hreports, hnames⟩ := link_pruned hlink
  refine ⟨compile_eq_ok_iff.2 ⟨hopen, hpruned, rfl⟩, hreports, hnames, hreports.count,
    d.length_describe, ?_⟩
  rw [Diagnostics.isEmpty, beq_iff_eq]

/-- Two circuits of two gates each.  Of the links the first leads somewhere on both sides, the
second lacks its target, the third its source and the fourth both; of the plans one has an entry
that leads somewhere between two that do not. -/
def frayed : Assembly where
  positioner := .manual ⟨[("left", ⟨some ⟨0, 0, 0⟩, .identity⟩),
    ("right", ⟨some ⟨9, 0, 5⟩, .quarterZ⟩)], some "right"⟩
  config := .standard
  schemes := [("left", twoGates), ("right", twoGates)]
  links := [⟨"left", "right/_", .straight⟩, ⟨"left", "middle", .straight⟩,
    ⟨"right/sum", "left", .straight⟩, ⟨"middle", "left/_/high", .straight⟩]
  inputs := [⟨"whole", "bit", .one,
    [⟨.origin, .one, "left/_/high", .straight⟩, ⟨.origin, .one, "right", .straight⟩,
      ⟨.origin, .one, "middle", .straight⟩], []⟩]
  outputs := [⟨"shown", "bit", .one, [⟨.origin, .one, "right", .straight⟩], []⟩,
    ⟨"hidden", "bit", .one, [⟨.origin, .one, "left/sum", .straight⟩], []⟩]
  consumed := false

/-- Of the two circuits three links and three entries are left out. -/
theorem compile_pruned_frayed :
    ∃ c d a', compile frayed = .ok (c, d) a'
      ∧ compile frayed.pruned = .ok (c, .none) { frayed.pruned with consumed := true }
      ∧ frayed.pruned.links.map Link.target = ["right/_"]
      ∧ d.links.map (fun b => (b.link.target, b.reasons.length))
        = [("middle", 1), ("left", 1), ("left/_/high", 2)]
      ∧ Keyed.names d.inputs = ["whole"] ∧ Keyed.names d.outputs = ["hidden"]
      ∧ d.count = 6 := by
  obtain ⟨c, d, a', h, hlinks, hins, houts⟩ : ∃ c d a', compile frayed = .ok (c, d) a'
      ∧ d.links.map (fun b => (b.link.target, b.reasons.length))
        = [("middle", 1), ("left", 1), ("left/_/high", 2)]
      ∧ Keyed.names d.inputs = ["whole"] ∧ Keyed.names d.outputs = ["hidden"] :=
    ⟨_, _, _, rfl, rfl, rfl, rfl⟩
  obtain ⟨hpruned, _, _, hcount, _⟩ := compile_pruned h
  exact ⟨c, d, a', h, hpruned, rfl, hlinks, hins, houts, hcount⟩

end Assembly

end Breadboard
