import Breadboard.Proofs.Assembly.Layout

/-!
**The connections that links draw.**

Drawing a link changes nothing but the connections of units.  Seen as a whole, the links of an
assembly are one list of pairs of a sender and a receiver, and a unit is given the receivers of the
pairs that it sends for, in their order.

Main definitions:

* `Assembly.receivers` — the receivers of one unit among given connections;
* `Assembly.attach` — units with given connections besides their own;
* `Assembly.connectionsBetween` — the connections that a wiring draws between two sectors;
* `Assembly.linkConnections` — the connections of one link, if its wiring proposes pairs.

Main results:

* `Assembly.attach_append` — connections may be drawn one after the other;
* `Assembly.draw_eq` — **what drawing one link does**;
* `Assembly.foldlM_draw_eq` — **what drawing all links does**.
-/

set_option autoImplicit false
set_option relaxedAutoImplicit false

namespace Breadboard

namespace Scope

/-- Every index in the slots that paths can name has a property. -/
def All (P : Int → Prop) (scope : Scope) : Prop :=
  ∀ entry ∈ scope, ∀ s ∈ entry.slots, ∀ p, ∀ i ∈ s.getPoint p, P (i + entry.offset)

/-- Every index in the slots that paths can name is that of one of `n` units. -/
def InRange (scope : Scope) (n : Nat) : Prop :=
  ∀ entry ∈ scope, ∀ s ∈ entry.slots, ∀ p, ∀ i ∈ s.getPoint p,
    0 ≤ i + entry.offset ∧ i + entry.offset < n

/-- A path leads to a sector of a slot of the circuit that it names. -/
theorem resolve_eq_ok {scope : Scope} {path : String} {t : Target}
    (h : scope.resolve path = .ok t) :
    ∃ entry ∈ scope, entry.scheme = (Path.read defaultSlot path).scheme
      ∧ t.offset = entry.offset ∧ t.slot ∈ entry.slots := by
  simp only [resolve] at h
  split at h
  · cases h
  · rename_i entry hentry
    split at h
    · cases h
    · rename_i slot hslot
      split at h
      · cases h
      · cases h
        have hname := List.find?_some hentry
        simp only [beq_iff_eq] at hname
        exact ⟨entry, List.mem_of_find?_eq_some hentry, hname, rfl,
          List.mem_of_find?_eq_some hslot⟩

/-- The units behind a point that a path leads to have the property. -/
theorem unitsAt_all {P : Int → Prop} {scope : Scope} (hscope : scope.All P) {path : String}
    {t : Target} (h : scope.resolve path = .ok t) {p : Point} {i : Int} (hi : i ∈ t.unitsAt p) :
    P i := by
  obtain ⟨entry, hentry, _, hoffset, hslot⟩ := resolve_eq_ok h
  obtain ⟨j, hj, rfl⟩ := List.mem_map.1 hi
  rw [hoffset]
  exact hscope entry hentry t.slot hslot p j hj

/-- The units behind a point that a path leads to are among those that exist. -/
theorem unitsAt_inRange {scope : Scope} {n : Nat} (hscope : scope.InRange n) {path : String}
    {t : Target} (h : scope.resolve path = .ok t) {p : Point} {i : Int} (hi : i ∈ t.unitsAt p) :
    0 ≤ i ∧ i < n :=
  unitsAt_all (P := fun i => 0 ≤ i ∧ i < n) hscope h hi

end Scope

namespace Assembly

/-! ### Units with more connections -/

/-- The receivers of one unit among given connections, each a sender with a receiver. -/
def receivers (connections : List (Int × Int)) (unit : Int) : List Int :=
  (connections.filter fun c => c.1 == unit).map Prod.snd

/-- Units with given connections besides their own. -/
def attach (connections : List (Int × Int)) (units : List Element) : List Element :=
  units.mapIdx fun i e => { e with wires := e.wires ++ receivers connections i }

@[simp] theorem length_attach (connections : List (Int × Int)) (units : List Element) :
    (attach connections units).length = units.length := by
  simp [attach]

theorem getElem?_attach (connections : List (Int × Int)) (units : List Element) (i : Nat) :
    (attach connections units)[i]?
      = units[i]?.map fun e => { e with wires := e.wires ++ receivers connections i } := by
  simp [attach]

theorem receivers_append (first second : List (Int × Int)) (unit : Int) :
    receivers (first ++ second) unit = receivers first unit ++ receivers second unit := by
  simp [receivers]

theorem receivers_flatMap {α : Type} (l : List α) (f : α → List (Int × Int)) (unit : Int) :
    receivers (l.flatMap f) unit = l.flatMap fun a => receivers (f a) unit := by
  simp [receivers, List.filter_flatMap, List.map_flatMap]

/-- A single sender has all receivers, and no other unit has any. -/
theorem receivers_map (targets : List Int) (sender unit : Int) :
    receivers (targets.map fun j => (sender, j)) unit = if sender = unit then targets else [] := by
  by_cases h : sender = unit <;>
    simp [receivers, List.filter_map, Function.comp_def, h]

@[simp] theorem attach_nil (units : List Element) : attach [] units = units := by
  refine List.ext_getElem? fun i => ?_
  rw [getElem?_attach]
  cases units[i]? <;> simp [receivers]

/-- Connections may be drawn one after the other. -/
theorem attach_append (first second : List (Int × Int)) (units : List Element) :
    attach (first ++ second) units = attach second (attach first units) := by
  refine List.ext_getElem? fun i => ?_
  rw [getElem?_attach, getElem?_attach, getElem?_attach]
  cases units[i]? <;> simp [receivers_append]

/-! ### Drawing -/

/-- More receivers for one unit. -/
theorem extendWires_eq {units : List Element} {unit : Int} (h0 : 0 ≤ unit)
    (h : unit < units.length) (targets : List Int) :
    extendWires targets units unit
      = .ok (attach (targets.map fun j => (unit, j)) units) := by
  rw [extendWires, Index.place?_of_lt h0 h]
  refine congrArg Except.ok (List.ext_getElem? fun i => ?_)
  rw [getElem?_attach, List.getElem?_modify]
  rw [receivers_map]
  by_cases hi : unit.toNat = i
  · have hunit : unit = i := by omega
    simp only [hunit, Int.toNat_natCast, if_true, Option.map_eq_map]
  · have hunit : unit ≠ i := by omega
    simp only [hi, hunit, if_false, List.append_nil, Option.map_eq_map]

/-- The connections of one pair of points. -/
def pairConnections (source target : Target) (pair : Pair) : List (Int × Int) :=
  (source.unitsAt pair.1).flatMap fun i => (target.unitsAt pair.2).map fun j => (i, j)

/-- A loop whose steps draw connections draws all of them. -/
theorem foldlM_attach {α : Type} {n : Nat} {step : List Element → α → Except Fault (List Element)}
    {f : α → List (Int × Int)} {l : List α} {units : List Element} (hn : units.length = n)
    (hstep : ∀ a ∈ l, ∀ units, units.length = n → step units a = .ok (attach (f a) units)) :
    l.foldlM step units = .ok (attach (l.flatMap f) units) := by
  induction l generalizing units with
  | nil => simp; rfl
  | cons a rest ih =>
      rw [List.foldlM_cons, hstep a List.mem_cons_self units hn, List.flatMap_cons, attach_append]
      exact ih (by rw [length_attach, hn]) fun b hb => hstep b (List.mem_cons_of_mem a hb)

/-- The connections of one pair of points are drawn. -/
theorem drawPair_eq {source target : Target} {units : List Element} {pair : Pair}
    (h : ∀ i ∈ source.unitsAt pair.1, 0 ≤ i ∧ i < units.length) :
    drawPair source target units pair
      = .ok (attach (pairConnections source target pair) units) := by
  refine foldlM_attach rfl fun i hi us hus => ?_
  have hi := h i hi
  exact extendWires_eq hi.1 (by rw [hus]; exact hi.2) _

/-- The connections that a wiring draws between two sectors, if it proposes pairs. -/
def connectionsBetween (wiring : Wiring) (source target : Target) :
    Except Fault (List (Int × Int)) := do
  let proposed ← wiring.pairs source.sector.size target.sector.size
  let pairs := Frame.liftPairs source.frame target.frame proposed
  pure (pairs.flatMap (pairConnections source target))

/-- The connections of one link, if its wiring proposes pairs; none if a path leads nowhere. -/
def linkConnections (outputs inputs : Scope) (link : Link) : Except Fault (List (Int × Int)) :=
  match outputs.resolve link.source, inputs.resolve link.target with
  | .ok source, .ok target => connectionsBetween link.wiring source target
  | _, _ => .ok []

/-- A connection of a link leads from a unit behind a point of the source to one behind a point of
the target. -/
theorem exists_of_mem_linkConnections {outputs inputs : Scope} {link : Link}
    {connections : List (Int × Int)} (h : linkConnections outputs inputs link = .ok connections)
    {c : Int × Int} (hc : c ∈ connections) :
    ∃ source target p q, outputs.resolve link.source = .ok source
      ∧ inputs.resolve link.target = .ok target ∧ c.1 ∈ source.unitsAt p
      ∧ c.2 ∈ target.unitsAt q := by
  cases hs : outputs.resolve link.source with
  | error missing =>
      simp only [linkConnections, hs] at h
      cases h
      cases hc
  | ok source =>
      cases ht : inputs.resolve link.target with
      | error missing =>
          simp only [linkConnections, hs, ht] at h
          cases h
          cases hc
      | ok target =>
          simp only [linkConnections, hs, ht] at h
          obtain ⟨proposed, _, h⟩ := Fault.bind_eq_ok_iff.1 h
          cases h
          obtain ⟨pair, _, hc⟩ := List.mem_flatMap.1 hc
          obtain ⟨i, hi, hc⟩ := List.mem_flatMap.1 hc
          obtain ⟨j, hj, rfl⟩ := List.mem_map.1 hc
          exact ⟨source, target, pair.1, pair.2, rfl, rfl, hi, hj⟩

/-- The connections of links lead from units with one property to units with another. -/
theorem all_of_mem_flatten {P Q : Int → Prop} {outputs inputs : Scope} (hout : outputs.All P)
    (hin : inputs.All Q) {links : List Link} {connections : List (List (Int × Int))}
    (h : links.mapM (linkConnections outputs inputs) = .ok connections) :
    ∀ c ∈ connections.flatten, P c.1 ∧ Q c.2 := by
  intro c hc
  obtain ⟨drawn, hdrawn, hc⟩ := List.mem_flatten.1 hc
  obtain ⟨link, _, hlink⟩ := Loop.exists_of_mem_mapM h hdrawn
  obtain ⟨source, target, p, q, hs, ht, hp, hq⟩ := exists_of_mem_linkConnections hlink hc
  exact ⟨Scope.unitsAt_all hout hs hp, Scope.unitsAt_all hin ht hq⟩

/-- The connections of links lead from units that exist to units that exist. -/
theorem inRange_of_mem_flatten {outputs inputs : Scope} {n : Nat} (hout : outputs.InRange n)
    (hin : inputs.InRange n) {links : List Link} {connections : List (List (Int × Int))}
    (h : links.mapM (linkConnections outputs inputs) = .ok connections) :
    ∀ c ∈ connections.flatten, (0 ≤ c.1 ∧ c.1 < n) ∧ 0 ≤ c.2 ∧ c.2 < n :=
  all_of_mem_flatten (P := fun i => 0 ≤ i ∧ i < n) (Q := fun i => 0 ≤ i ∧ i < n) hout hin h

/-- The report on one link, if a path leads nowhere. -/
def linkReport (outputs inputs : Scope) (link : Link) : List BrokenLink :=
  match outputs.resolve link.source, inputs.resolve link.target with
  | .ok _, .ok _ => []
  | source, target => [⟨link, missingParts source target⟩]

/-- **What drawing one link does.** -/
theorem draw_eq {outputs inputs : Scope} {units : List Element}
    (hscope : outputs.InRange units.length) (broken : List BrokenLink) (link : Link) :
    draw outputs inputs (units, broken) link = (do
      let connections ← linkConnections outputs inputs link
      pure (attach connections units, broken ++ linkReport outputs inputs link)) := by
  unfold draw linkConnections linkReport connectionsBetween
  cases hs : outputs.resolve link.source with
  | error missing => simp only [attach_nil, bind, Except.bind, pure, Except.pure]
  | ok source =>
      cases ht : inputs.resolve link.target with
      | error missing => simp only [attach_nil, bind, Except.bind, pure, Except.pure]
      | ok target =>
          simp only []
          cases link.wiring.pairs source.sector.size target.sector.size with
          | error fault => rfl
          | ok proposed =>
              have hfold : (Frame.liftPairs source.frame target.frame proposed).foldlM
                  (drawPair source target) units
                    = .ok (attach ((Frame.liftPairs source.frame target.frame proposed).flatMap
                        (pairConnections source target)) units) :=
                foldlM_attach rfl fun pair _ us hus => drawPair_eq fun i hi => by
                  rw [hus]; exact Scope.unitsAt_inRange hscope hs hi
              simp only [bind, Except.bind, pure, Except.pure, List.append_nil] at hfold ⊢
              rw [hfold]

/-- **What drawing all links does.** -/
theorem foldlM_draw_eq {outputs inputs : Scope} {links : List Link} {units : List Element}
    {broken : List BrokenLink} (hscope : outputs.InRange units.length) :
    links.foldlM (draw outputs inputs) (units, broken) = (do
      let connections ← links.mapM (linkConnections outputs inputs)
      pure (attach connections.flatten units,
        broken ++ links.flatMap (linkReport outputs inputs))) := by
  -- the units grow receivers but stay as many, so the paths of later links resolve as before
  induction links generalizing units broken with
  | nil => simp
  | cons link rest ih =>
      rw [List.foldlM_cons, draw_eq hscope, List.mapM_cons]
      cases linkConnections outputs inputs link with
      | error fault => rfl
      | ok drawn =>
          refine (ih (by rw [length_attach]; exact hscope)).trans ?_
          cases rest.mapM (linkConnections outputs inputs) with
          | error fault => rfl
          | ok later =>
              refine congrArg Except.ok ?_
              rw [List.flatten_cons, attach_append, List.flatMap_cons, List.append_assoc]

end Assembly

end Breadboard
