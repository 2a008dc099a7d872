import Breadboard.Proofs.Assembly.Closed
import Breadboard.Proofs.Assembly.Renumbered

/-!
**The order in which circuits are added.**

The order of the circuits decides which numbers their units have, and nothing else.  If the same
circuits are added in another order, every path leads to the same sector, and behind its points
stand the same units under their other numbers; so the slots that are made and the connections that
are drawn are the same up to the numbers.

Main definitions:

* `Assembly.Reordered` — the same assembly, its circuits added in another order;
* `Assembly.renumber` — the number of a unit after the circuits were added in another order.

Main results:

* `Assembly.bijOn_renumber` — a unit of a circuit is sent to the same unit of the same circuit;
* `Assembly.renumbers_scope` — **a path leads to the same units**;
* `Assembly.agree_link` — linking agrees in both orders;
* `Assembly.compile_reordered` — **compiling agrees, up to the numbers of the units**.
-/

set_option autoImplicit false
set_option relaxedAutoImplicit false

namespace Breadboard

open Renumbering (along)

namespace Assembly

/-- The same circuits under the same names, each with the same pose, are added in some other order;
all else is the same. -/
structure Reordered (a b : Assembly) : Prop where
  schemes : a.schemes.Perm b.schemes
  poses : ∃ p q, a.positioner = .manual p ∧ b.positioner = .manual q
    ∧ ∀ name ∈ Keyed.names a.schemes, Keyed.find? name q.poses = Keyed.find? name p.poses
  config : b.config = a.config
  links : b.links = a.links
  inputs : b.inputs = a.inputs
  outputs : b.outputs = a.outputs
  consumed : b.consumed = a.consumed

/-! ### Numbers of units -/

/-- The number that a unit with a given number among some circuits has among `others`. -/
def renumber (others : Keyed Circuit) : Keyed Circuit → Nat → Nat
  | [], i => i
  | (name, c) :: rest, i =>
      if i < c.units.length then offset others name + i
      else renumber others rest (i - c.units.length)

section Numbers

variable {S T : Keyed Circuit}

/-- A unit of a circuit is sent to the same unit of the same circuit. -/
theorem renumber_offset_add (hnames : (Keyed.names S).Nodup) {name : String} {c : Circuit}
    (h : (name, c) ∈ S) {i : Nat} (hi : i < c.units.length) :
    renumber T S (offset S name + i) = offset T name + i := by
  induction S with
  | nil => cases h
  | cons s rest ih =>
      obtain ⟨n, d⟩ := s
      rcases List.mem_cons.1 h with e | h
      · cases e
        rw [offset_cons_self, Nat.zero_add, renumber, if_pos hi]
      · rw [offset_cons_of_ne d rest (ne_of_mem_tail hnames h), Nat.add_assoc, renumber,
          if_neg (by omega), Nat.add_sub_cancel_left]
        exact ih (List.nodup_cons.1 hnames).2 h

theorem nodup_names_of_perm (hperm : S.Perm T) (hnames : (Keyed.names S).Nodup) :
    (Keyed.names T).Nodup :=
  (hperm.map Prod.fst).nodup_iff.1 hnames

theorem unitCount_of_perm (hperm : S.Perm T) : unitCount T = unitCount S :=
  ((hperm.flatMap_right _).length_eq).symm

/-- Every unit has one number in each of the two orders. -/
theorem bijOn_renumber (hperm : S.Perm T) (hnames : (Keyed.names S).Nodup) :
    Set.BijOn (renumber T S) (Set.Iio (unitCount S)) (Set.Iio (unitCount S)) := by
  have hnames' := nodup_names_of_perm hperm hnames
  refine ⟨fun k hk => ?_, fun k hk l hl e => ?_, fun k hk => ?_⟩
  · obtain ⟨name, c, i, hmem, hi, rfl⟩ := exists_eq_offset_add hnames hk
    rw [renumber_offset_add hnames hmem hi, Set.mem_Iio, ← unitCount_of_perm hperm]
    exact offset_add_lt (hperm.mem_iff.1 hmem) hnames' hi
  · obtain ⟨name, c, i, hmem, hi, rfl⟩ := exists_eq_offset_add hnames hk
    obtain ⟨name', c', j, hmem', hj, rfl⟩ := exists_eq_offset_add hnames hl
    rw [renumber_offset_add hnames hmem hi, renumber_offset_add hnames hmem' hj] at e
    rw [offset_add_inj hnames hmem hmem' hi hj]
    exact (offset_add_inj hnames' (hperm.mem_iff.1 hmem) (hperm.mem_iff.1 hmem') hi hj).1 e
  · rw [Set.mem_Iio, ← unitCount_of_perm hperm] at hk
    obtain ⟨name, c, i, hmem, hi, rfl⟩ := exists_eq_offset_add hnames' hk
    have hmem := hperm.mem_iff.2 hmem
    exact ⟨offset S name + i, offset_add_lt hmem hnames hi, renumber_offset_add hnames hmem hi⟩

/-- A reference of a circuit to one of its units, shifted behind the circuits before it. -/
theorem along_add_offset (hnames : (Keyed.names S).Nodup) {name : String} {c : Circuit}
    (h : (name, c) ∈ S) {i : Int} (h0 : 0 ≤ i) (hi : i < c.units.length) :
    along (renumber T S) (i + offset S name) = i + offset T name := by
  have hunit := renumber_offset_add (T := T) hnames h (i := i.toNat) (by omega)
  rw [show i + (offset S name : Int) = (offset S name + i.toNat : Nat) by omega,
    Renumbering.along_natCast, hunit]
  omega

end Numbers

/-! ### Paths -/

section Paths

variable {S T : Keyed Circuit}

/-- **A path leads to the same units**, under their numbers in the other order. -/
theorem renumbers_scope (hperm : S.Perm T) (hnames : (Keyed.names S).Nodup)
    (hslots : ∀ s ∈ S, s.2.SlotsInRange) (side : Side) :
    (scope S side).Renumbers (renumber T S) (scope T side) := by
  intro path
  have hnames' := nodup_names_of_perm hperm hnames
  simp only [Scope.resolve]
  generalize Path.read defaultSlot path = parts
  by_cases hmem : parts.scheme ∈ Keyed.names S
  · obtain ⟨⟨name, c⟩, hmem, rfl⟩ := List.mem_map.1 hmem
    simp only [find?_scope hnames hmem, find?_scope hnames' (hperm.mem_iff.1 hmem)]
    cases hslot : Circuit.findSlot? parts.slot (c.slots side) with
    | none => exact .inl ⟨_, rfl, rfl⟩
    | some slot =>
        simp only []
        cases slot.getSector? parts.sector with
        | none => exact .inl ⟨_, rfl, rfl⟩
        | some sector =>
            refine .inr ⟨_, _, rfl, rfl, rfl, rfl, fun p => ?_⟩
            simp only [Target.unitsAt, List.map_map]
            refine List.map_congr_left fun i hi => ?_
            have hrange := hslots _ hmem side slot (List.mem_of_find?_eq_some hslot) p i hi
            exact (along_add_offset hnames hmem hrange.1 hrange.2).symm
  · have hnone (U : Keyed Circuit) (hU : parts.scheme ∉ Keyed.names U) :
        (scope U side).find? parts.scheme = none := by
      rw [Scope.find?, List.find?_eq_none]
      intro entry hentry
      obtain ⟨s, hs, rfl⟩ := List.mem_map.1 hentry
      rw [beq_iff_eq]
      exact fun e => hU (e ▸ List.mem_map_of_mem hs)
    have hmem' : parts.scheme ∉ Keyed.names T := fun h =>
      hmem ((hperm.map Prod.fst).mem_iff.2 h)
    rw [hnone S hmem, hnone T hmem']
    exact .inl ⟨_, rfl, rfl⟩

end Paths

/-! ### Places -/

section Linking

variable {a b : Assembly}

theorem Reordered.perm_names (h : Reordered a b) :
    (Keyed.names a.schemes).Perm (Keyed.names b.schemes) :=
  h.schemes.map Prod.fst

theorem Reordered.holds {P : Circuit → Prop} (h : Reordered a b) (ha : a.Holds P) : b.Holds P :=
  ⟨nodup_names_of_perm h.schemes ha.names,
    fun s hs => ha.circuits s (h.schemes.mem_iff.2 hs)⟩

/-- The same circuits have no place, and all others have the same. -/
theorem agree_arrange (h : Reordered a b) :
    Agree (fun places places' => ∀ s ∈ a.schemes, seat places' s.1 = seat places s.1)
      (a.positioner.arrange (Keyed.names a.schemes))
      (b.positioner.arrange (Keyed.names b.schemes)) := by
  obtain ⟨p, q, hp, hq, hposes⟩ := h.poses
  have hgaps : ((Keyed.names a.schemes).filterMap fun name =>
        (p.gap? name).map fun gap => (name, gap)).Perm
      ((Keyed.names b.schemes).filterMap fun name => (q.gap? name).map fun gap => (name, gap)) := by
    rw [List.filterMap_congr fun name hname => by
      rw [Placements.gap?, ← hposes name hname, ← Placements.gap?]]
    exact h.perm_names.filterMap _
  simp only [hp, hq, Positioner.arrange, hgaps.isEmpty_eq]
  split
  · refine .ok fun s hs => ?_
    have hname : s.1 ∈ Keyed.names a.schemes := List.mem_map_of_mem hs
    rw [seat, seat, find?_map_names _ hname, find?_map_names _ (h.perm_names.mem_iff.1 hname),
      Placements.pose, Placements.pose, hposes _ hname]
  · exact .error (.unplaced hgaps)

/-- Circuits are laid out in both orders or in neither. -/
theorem agree_layOut (ha : (Keyed.names a.schemes).Nodup) (h : Reordered a b)
    (places places' : Keyed (Point × Turn)) :
    Agree (fun _ _ => True) (layOut places 0 a.schemes) (layOut places' 0 b.schemes) := by
  by_cases hmovable : ∀ s ∈ a.schemes, s.2.Movable
  · rw [layOut_of_movable ha hmovable, layOut_of_movable (nodup_names_of_perm h.schemes ha)
      fun s hs => hmovable s (h.schemes.mem_iff.2 hs)]
    exact .ok trivial
  · push Not at hmovable
    obtain ⟨s, hs, hfar⟩ := hmovable
    rw [layOut_of_not_movable ⟨s, hs, hfar⟩,
      layOut_of_not_movable ⟨s, h.schemes.mem_iff.1 hs, hfar⟩]
    exact .error (.refl _)

/-! ### Units -/

/-- The units of the other order, with the connections that are drawn there. -/
theorem reordersUnits_attach (ha : a.Holds Circuit.Closed) (h : Reordered a b)
    {places places' : Keyed (Point × Turn)}
    (hplaces : ∀ s ∈ a.schemes, seat places' s.1 = seat places s.1)
    {connections : List (Int × Int)}
    (hconnections : ∀ c ∈ connections, 0 ≤ c.1 ∧ c.1 < unitCount a.schemes) :
    Circuit.ReordersUnits (renumber b.schemes a.schemes)
      (attach connections (laidOut a.schemes places))
      (attach (connections.map (Prod.map (along (renumber b.schemes a.schemes))
          (along (renumber b.schemes a.schemes)))) (laidOut b.schemes places')) := by
  have hcount := unitCount_of_perm h.schemes
  refine ⟨by simp only [length_attach, length_laidOut, hcount], fun k hk => ?_⟩
  rw [length_attach, length_laidOut] at hk
  have hbij := bijOn_renumber h.schemes ha.names
  have hreceivers := receivers_renumbers hbij.injOn hconnections hk
  obtain ⟨name, c, i, hmem, hi, rfl⟩ := exists_eq_offset_add ha.names hk
  rw [renumber_offset_add ha.names hmem hi] at hreceivers ⊢
  rw [getElem?_linked places _ ha.names hmem hi,
    getElem?_linked places' _ (h.holds ha).names (h.schemes.mem_iff.1 hmem) hi,
    ← Int.natCast_add, hreceivers, List.getElem?_eq_getElem hi, hplaces _ hmem]
  simp only [Option.map_some, Option.some_inj, Element.along, List.map_append, List.map_map]
  -- the wires of a closed circuit lead to its own units
  have hwires := (ha.circuits _ hmem).wires _ (List.getElem_mem hi)
  have hown : c.units[i].wires.map (along (renumber b.schemes a.schemes) ∘
      fun w => w + (offset a.schemes name : Int))
        = c.units[i].wires.map fun w => w + (offset b.schemes name : Int) :=
    List.map_congr_left fun w hw => along_add_offset ha.names hmem (hwires w hw).1 (hwires w hw).2
  rw [hown]
  rfl

/-! ### Checking the connection counts -/

/-- The same paths reach the units with too many receivers. -/
theorem perm_reaching (ha : a.Sound) (h : Reordered a b) {found found' : List (Nat × Nat)}
    (hfound : ∀ u ∈ found, u.1 < unitCount a.schemes)
    (hperm : found'.Perm (found.map fun u => (renumber b.schemes a.schemes u.1, u.2)))
    (side : Side) : (reaching found (scope a.schemes side)).Perm
      (reaching found' (scope b.schemes side)) := by
  have hbij := bijOn_renumber h.schemes ha.names
  rw [reaching, reaching, scope, scope, List.flatMap_map, List.flatMap_map]
  refine List.Perm.trans (List.Perm.of_eq ?_) (h.schemes.flatMap_right _)
  refine List.flatMap_congr fun s hs => congrArg _ (List.filter_congr fun slot hslot => ?_)
  rw [Bool.eq_iff_iff, List.any_eq_true, List.any_eq_true]
  refine exists_congr fun i => and_congr_right fun hi => ?_
  -- a unit of the circuit is found in one order if and only if it is found in the other
  obtain ⟨p, hp⟩ := Slot.mem_flatten_values.1 ((Sorted.mem_ofList Sorted.isOrder_intLt).1 hi)
  have hrange := ha.slots s hs side slot hslot p i hp
  have hunit := along_add_offset (T := b.schemes) ha.names hs hrange.1 hrange.2
  have hlt := offset_add_lt hs ha.names (i := i.toNat) (by omega)
  simp only [List.any_eq_true, beq_iff_eq, hperm.mem_iff, List.mem_map]
  constructor
  · rintro ⟨u, hu, e⟩
    refine ⟨_, ⟨u, hu, rfl⟩, ?_⟩
    rw [← hunit, ← e, Renumbering.along_natCast]
  · rintro ⟨_, ⟨u, hu, rfl⟩, e⟩
    refine ⟨u, hu, ?_⟩
    rw [← hunit, ← Renumbering.along_natCast] at e
    exact (Renumbering.along_inj hbij.injOn ⟨by omega, by exact_mod_cast hfound u hu⟩
      ⟨by omega, by omega⟩).1 e

/-- Connection counts are refused in both orders or in neither. -/
theorem agree_checkFanOut (ha : a.Sound) (h : Reordered a b) {units units' : List Element}
    (hlength : units.length = unitCount a.schemes)
    (hunits : Circuit.ReordersUnits (renumber b.schemes a.schemes) units units') :
    Agree (fun _ _ => True)
      (checkFanOut a.config (scope a.schemes .output) (scope a.schemes .input) units)
      (checkFanOut b.config (scope b.schemes .output) (scope b.schemes .input) units') := by
  have hbij := bijOn_renumber h.schemes ha.names
  rw [← hlength] at hbij
  have hperm := perm_overflowing hbij hunits a.config.maxConnections
  have hfound : ∀ u ∈ overflowing a.config.maxConnections units, u.1 < unitCount a.schemes := by
    intro u hu
    obtain ⟨e, he, _⟩ := mem_overflowing.1 hu
    exact hlength ▸ (List.getElem?_eq_some_iff.1 he).1
  have hcount := hperm.length_eq
  rw [List.length_map] at hcount
  simp only [checkFanOut, h.config, hperm.isEmpty_eq, List.isEmpty_map]
  split
  · exact .error (.fanOut (perm_reaching ha h hfound hperm .input)
      (perm_reaching ha h hfound hperm .output) hcount.symm)
  · exact .ok trivial

/-! ### Linking and compiling -/

/-- **Linking agrees in both orders.** -/
theorem agree_link (ha : a.Holds Circuit.Closed) (h : Reordered a b) :
    Agree (fun r r' => r.1.Reorders (renumber b.schemes a.schemes) r'.1 ∧ r'.2 = r.2)
      a.link b.link := by
  have hin := renumbers_scope h.schemes ha.names ha.sound.slots .input
  have hout := renumbers_scope h.schemes ha.names ha.sound.slots .output
  rw [link_eq ha.sound, link_eq (h.holds ha).sound]
  refine (agree_arrange h).bind fun places places' _ _ hplaces => ?_
  refine (agree_layOut ha.names h places places').bind fun _ _ _ _ _ => ?_
  rw [h.inputs, h.outputs, h.links, makeSlots_renumbers hin, makeSlots_renumbers hout,
    Loop.mapM_map_result fun link _ => linkConnections_renumbers hout hin link,
    List.flatMap_congr fun link _ => linkReport_renumbers hout hin link]
  refine Agree.of_map.bind fun ins _ hins _ e => ?_
  subst e
  refine Agree.of_map.bind fun outs _ houts _ e => ?_
  subst e
  refine Agree.of_map.bind fun connections _ hconnections _ e => ?_
  subst e
  have hlength : (attach connections.flatten (laidOut a.schemes places)).length
      = unitCount a.schemes := by
    rw [length_attach, length_laidOut]
  have hunits := reordersUnits_attach ha h hplaces fun c hc =>
    (inRange_of_mem_flatten (inRange_scope ha.sound .output) (inRange_scope ha.sound .input)
      hconnections c hc).1
  rw [List.map_flatten] at hunits
  refine (agree_checkFanOut ha.sound h hlength hunits).bind fun _ _ _ _ _ => ?_
  have hbuild := Circuit.agree_build (hlength ▸ bijOn_renumber h.schemes ha.names) hunits
    (hlength ▸ inRange_of_makeSlots (inRange_scope ha.sound .input) hins)
    (hlength ▸ inRange_of_makeSlots (inRange_scope ha.sound .output) houts)
  exact hbuild.bind fun c c' _ _ hc => .ok ⟨hc, rfl⟩

end Linking

/-- **The order in which circuits are added does not matter.**  If two assemblies have the same
closed circuits under the same names, with the same poses, links, plans and checks, then they are
both refused, and for the same kind of reason, or they are both compiled.  In that case they report
the same, and there is a bijection between the numbers of their units which sends a unit of a
circuit to the same unit of the same circuit, and under which the units of one stand in the other,
with their receivers in the same order, and the slots of one are those of the other. -/
theorem compile_reordered {a b : Assembly} (ha : a.Holds Circuit.Closed) (h : Reordered a b) :
    ∃ π : Nat → Nat,
      Set.BijOn π (Set.Iio (unitCount a.schemes)) (Set.Iio (unitCount b.schemes))
      ∧ (∀ name c, (name, c) ∈ a.schemes → ∀ i < c.units.length,
          π (offset a.schemes name + i) = offset b.schemes name + i)
      ∧ (∀ fault a', compile a = .error fault a' →
          ∃ fault' b', compile b = .error fault' b' ∧ fault.Alike fault')
      ∧ ∀ c d a', compile a = .ok (c, d) a' →
          ∃ c' b', compile b = .ok (c', d) b' ∧ c.Reorders π c' := by
  refine ⟨renumber b.schemes a.schemes, ?_, fun name c hmem i hi =>
    renumber_offset_add ha.names hmem hi, fun fault a' hfails => ?_, fun c d a' hdone => ?_⟩
  · rw [unitCount_of_perm h.schemes]
    exact bijOn_renumber h.schemes ha.names
  · cases hopen : a.consumed with
    | true =>
        rw [compile_of_consumed hopen] at hfails
        cases hfails
        exact ⟨_, _, compile_of_consumed (h.consumed.trans hopen), .refl _⟩
    | false =>
        rw [compile_of_open hopen] at hfails
        rw [compile_of_open (h.consumed.trans hopen)]
        have hagree := agree_link ha h
        generalize a.link = linked, b.link = linked' at hfails hagree
        cases hagree with
        | ok hr => cases hfails
        | error halike =>
            cases hfails
            exact ⟨_, _, rfl, halike⟩
  · obtain ⟨hopen, hlink, _⟩ := compile_eq_ok_iff.1 hdone
    have hagree := agree_link ha h
    rw [hlink] at hagree
    generalize hlink' : b.link = linked' at hagree
    cases hagree with
    | @ok _ r hr =>
        obtain ⟨c', d'⟩ := r
        obtain ⟨hreorders, rfl⟩ := hr
        exact ⟨c', _, compile_eq_ok_iff.2 ⟨h.consumed.trans hopen, hlink', rfl⟩, hreorders⟩

/-- The ring with its circuits added the other way round. -/
def ringReversed : Assembly := { ring with schemes := ring.schemes.reverse }

theorem reordered_ring : Reordered ring ringReversed where
  schemes := (List.reverse_perm _).symm
  poses := ⟨_, _, rfl, rfl, fun _ _ => rfl⟩
  config := rfl
  links := rfl
  inputs := rfl
  outputs := rfl
  consumed := rfl

theorem holds_closed_ring : ring.Holds Circuit.Closed := by
  refine ⟨sound_ring.names, fun s hs => ?_⟩
  simp only [ring, List.mem_cons, List.not_mem_nil, or_false] at hs
  rcases hs with rfl | rfl <;> exact closed_twoGates

/-- The ring both ways round: the second unit on the left has the number 1 one way and the number 3
the other way. -/
theorem compile_reordered_ring :
    ∃ (π : Nat → Nat) (c c' : Circuit) (d : Diagnostics) (a' b' : Assembly),
      ring.Holds Circuit.Closed ∧ Reordered ring ringReversed
      ∧ compile ring = .ok (c, d) a' ∧ compile ringReversed = .ok (c', d) b'
      ∧ c.units.length = 4 ∧ c.Reorders π c' ∧ π 1 = 3 := by
  obtain ⟨π, _, hoffset, _, hcompiled⟩ := compile_reordered holds_closed_ring reordered_ring
  obtain ⟨c, d, a', h, hlength⟩ : ∃ c d a', compile ring = .ok (c, d) a' ∧ c.units.length = 4 :=
    ⟨_, _, _, rfl, rfl⟩
  obtain ⟨c', b', h', hreorders⟩ := hcompiled c d a' h
  exact ⟨π, c, c', d, a', b', holds_closed_ring, reordered_ring, h, h', hlength, hreorders,
    hoffset "left" twoGates List.mem_cons_self 1 (by decide)⟩

end Assembly

end Breadboard
