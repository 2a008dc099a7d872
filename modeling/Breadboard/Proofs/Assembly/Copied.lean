import Breadboard.Proofs.Assembly.Forwarding
import Breadboard.Proofs.Assembly.Sectors
import Breadboard.Proofs.Assembly.Turning

/-!
**Passing a slot on copies it.**

The path of a slot that is passed on is cut into its parts when the call is made, put together
again, and read once more when the assembly is compiled.  Reading has defaults for parts that are
missing, and cutting refuses such paths, so both come to the same sector, whatever separators its
name has.  The call succeeds for every path that names a scheme and a slot and leads somewhere.
However the assembly is built further, the compiled circuit has a copy of the sector.

Main definitions:

* `Circuit.Sectored` — the sectors of all slots fit, and none has a negative extent;
* `Diagnostics.slots` — the reports on the planned slots of a side.

Main results:

* `Assembly.plan_eq_ok_iff`, `Assembly.exists_forward_iff` — when a slot can be planned, and passed
  on;
* `Assembly.mem_plans_run` — what is planned stays planned;
* `Assembly.findSlot?_of_makeSlots` — the slot of a plan is found under its name;
* `Assembly.forward_copies` — **a slot that is passed on is a copy**.
-/

set_option autoImplicit false
set_option relaxedAutoImplicit false

namespace Breadboard

/-- The sectors of all slots can be declared one after the other, and none has a negative extent. -/
def Circuit.Sectored (c : Circuit) : Prop :=
  ∀ side, ∀ s ∈ c.slots side, s.Sectored (Point.origin ≤ ·)

/-- Slots that are reached without declaring negative extents have proper sectors. -/
theorem Circuit.sectored_of_reached {c : Circuit}
    (h : ∀ side, ∀ s ∈ c.slots side, s.Reached (Point.origin ≤ ·)) : c.Sectored :=
  fun side s hs => (h side s hs).sectored

namespace Assembly

/-! ### When a slot can be passed on -/

section Forward

variable {a b : Assembly} {side : Side} {name path : String} {kind : Option String} {parts : Path}
  {slot : Slot} {sector : Sector} {p : SlotPlan}

/-- The slots of circuits with proper sectors can be passed on, and so can the sectors. -/
theorem exists_forwardPlan (hslot : slot.Sectored (Point.origin ≤ ·))
    (hsector : slot.getSector? parts.sector = some sector) (name : String) (kind : Option String) :
    ∃ p, forwardPlan name kind parts slot sector = .ok p := by
  have hextents : ∀ sub ∈ slot.sectors, Point.origin ≤ sub.2.size := fun sub hsub =>
    (hslot.extents sub hsub).elim id id
  obtain ⟨scheme, slotName, sectorName⟩ := parts
  by_cases hwhole : sectorName = wholeSector
  · obtain rfl : sectorName = wholeSector := hwhole
    obtain rfl : slot.whole = sector :=
      Option.some.inj ((Slot.getSector?_wholeSector slot).symm.trans hsector)
    exact (exists_forwardPlan_iff hslot.fit name kind scheme slotName).1.2 hextents
  · have hfound : Keyed.find? sectorName slot.sectors = some sector := by
      rw [← hsector, Slot.getSector?, if_neg hwhole]
    have hsize : sector.size.isSize = true :=
      Point.isSize_iff_origin_le.2 (hextents _ (Keyed.mem_of_find?_eq_some hfound))
    have hread : Reading.asSize sector.size = .ok ⟨sector.size, hsize⟩ := dif_pos hsize
    rw [forwardPlan, hread, Fault.ok_bind]
    exact ⟨_, if_neg hwhole⟩

/-- A plan is taken if its name may be used and is new. -/
theorem plan_eq_ok_iff : plan side p a = .ok () b ↔ a.consumed = false
    ∧ (p.name ≠ "" ∧ Path.separator ∉ p.name.toList)
    ∧ p.name ∉ (a.plans side).map SlotPlan.name ∧ b = a.pushPlan side p := by
  have htaken : ((a.plans side).any fun q => q.name == p.name) = true
      ↔ p.name ∈ (a.plans side).map SlotPlan.name := by
    simp only [List.any_eq_true, beq_iff_eq, List.mem_map]
  have hset : (if ((a.plans side).any fun q => q.name == p.name) = true
        then throw (.slotNameTaken side p.name) else set (a.pushPlan side p) : AssemblyM Unit) a
          = .ok () b
      ↔ p.name ∉ (a.plans side).map SlotPlan.name ∧ b = a.pushPlan side p := by
    rw [← htaken]
    split
    · rename_i hany
      exact ⟨nofun, fun h => absurd hany h.1⟩
    · rename_i hnone
      refine ⟨fun h => ⟨hnone, ?_⟩, ?_⟩
      · cases h
        rfl
      · rintro ⟨_, rfl⟩
        rfl
  rw [← hset, ← checkName_eq_ok_iff (side.title ++ " slot")]
  constructor
  · intro h
    obtain ⟨hopen, h⟩ := ensureOpen_bind_eq_ok_iff.1 h
    obtain ⟨_, hname, h⟩ := answer_bind_eq_ok_iff.1 h
    exact ⟨hopen, hname, h⟩
  · rintro ⟨hopen, hname, h⟩
    exact ensureOpen_bind_eq_ok_iff.2 ⟨hopen, answer_bind_eq_ok_iff.2 ⟨(), hname, h⟩⟩

/-- **A slot is passed on** if the name may be used and is new, and the path leads to a sector of
which a plan can be made. -/
theorem forward_eq_ok_iff : forward side name path kind a = .ok () b ↔ a.consumed = false
    ∧ (name ≠ "" ∧ Path.separator ∉ name.toList) ∧ name ∉ (a.plans side).map SlotPlan.name
    ∧ ∃ parts slot sector p, a.forwardTarget side path = .ok (parts, slot, sector)
      ∧ forwardPlan name kind parts slot sector = .ok p ∧ b = a.pushPlan side p := by
  constructor
  · intro h
    obtain ⟨hopen, h⟩ := ensureOpen_bind_eq_ok_iff.1 h
    obtain ⟨_, hname, h⟩ := answer_bind_eq_ok_iff.1 h
    rw [Loop.get_bind] at h
    cases htarget : a.forwardTarget side path with
    | error flaw =>
        rw [htarget] at h
        cases h
    | ok found =>
        obtain ⟨parts, slot, sector⟩ := found
        rw [htarget] at h
        obtain ⟨p, hplan, h⟩ := answer_bind_eq_ok_iff.1 h
        obtain ⟨_, _, hnew, rfl⟩ := plan_eq_ok_iff.1 h
        rw [(forwardPlan_eq_ok hplan).1] at hnew
        exact ⟨hopen, (checkName_eq_ok_iff _).1 hname, hnew, parts, slot, sector, p, rfl, hplan, rfl⟩
  · rintro ⟨hopen, hname, hnew, parts, slot, sector, p, htarget, hplan, rfl⟩
    refine ensureOpen_bind_eq_ok_iff.2 ⟨hopen, ?_⟩
    refine answer_bind_eq_ok_iff.2 ⟨(), (checkName_eq_ok_iff _).2 hname, ?_⟩
    rw [Loop.get_bind, htarget]
    refine answer_bind_eq_ok_iff.2 ⟨p, hplan, ?_⟩
    rw [← (forwardPlan_eq_ok hplan).1] at hname hnew
    exact plan_eq_ok_iff.2 ⟨hopen, hname, hnew, rfl⟩

/-- **When a slot can be passed on**, in an assembly of circuits with proper sectors. -/
theorem exists_forward_iff (ha : a.Holds Circuit.Sectored) (hopen : a.consumed = false)
    (side : Side) (name path : String) (kind : Option String) :
    (∃ b, forward side name path kind a = .ok () b) ↔
      name ≠ "" ∧ Path.separator ∉ name.toList ∧ name ∉ (a.plans side).map SlotPlan.name
        ∧ (∃ parts, Path.Names path parts)
        ∧ ∃ t, (scope a.schemes side).resolve path = .ok t := by
  constructor
  · rintro ⟨b, hb⟩
    obtain ⟨_, ⟨hne, hsep⟩, hnew, parts, slot, sector, p, htarget, _⟩ := forward_eq_ok_iff.1 hb
    obtain ⟨hpath, hdenotes⟩ := (forwardTarget_eq_ok_iff ha.names).1 htarget
    exact ⟨hne, hsep, hnew, ⟨parts, hpath⟩, _, (resolve_of_names ha.names hpath).2 hdenotes⟩
  · rintro ⟨hne, hsep, hnew, ⟨parts, hpath⟩, ⟨first, slot, sector⟩, ht⟩
    obtain ⟨rfl, c, hc, hslot, hsector⟩ := (resolve_of_names ha.names hpath).1 ht
    have htarget := (forwardTarget_eq_ok_iff ha.names).2 ⟨hpath, rfl, c, hc, hslot, hsector⟩
    have hproper : slot.Sectored (Point.origin ≤ ·) :=
      ha.circuits _ hc side slot (List.mem_of_find?_eq_some hslot)
    obtain ⟨p, hplan⟩ := exists_forwardPlan hproper hsector name kind
    exact ⟨_, forward_eq_ok_iff.2 ⟨hopen, ⟨hne, hsep⟩, hnew, parts, slot, sector, p, htarget, hplan,
      rfl⟩⟩

end Forward

/-! ### The slot that is made -/

/-- What is planned stays planned, whatever is called afterwards. -/
theorem mem_plans_run {a : Assembly} {side : Side} {p : SlotPlan} (h : p ∈ a.plans side)
    (calls : List Call) : p ∈ (run calls a).plans side := by
  refine run_of_keeps (I := fun a => p ∈ a.plans side) h fun call _ => ?_
  refine Call.keeps_of_change fun a b ha hchange => ?_
  cases hchange with
  | checked | added | connected | arranged => cases side <;> exact ha
  | planned | forwarded =>
      rw [plans_pushPlan]
      split
      · exact List.mem_append_left _ ha
      · exact ha

end Assembly

/-- The reports on the planned slots of a side. -/
def Diagnostics.slots (d : Diagnostics) : Side → Keyed (List Unresolved)
  | .input => d.inputs
  | .output => d.outputs

namespace Assembly

/-- The slots of a circuit that is linked are made from the plans, and they have different names. -/
theorem makeSlots_of_link {a : Assembly} (hnames : (Keyed.names a.schemes).Nodup) {c : Circuit}
    {d : Diagnostics} (h : a.link = .ok (c, d)) (side : Side) :
    makeSlots (a.plans side) (scope a.schemes side) side = .ok (c.slots side, d.slots side)
      ∧ ((c.slots side).map Slot.name).Nodup := by
  obtain ⟨places, blocks, ⟨ins, badIns⟩, ⟨outs, badOuts⟩, drawn, hstages⟩ :=
    link_eq_ok_iff_stages.1 h
  obtain ⟨_, hblocks, hins, houts, _, _, hbuilt, rfl⟩ := hstages
  obtain ⟨_, hin, hout, _⟩ := Circuit.build_eq_ok hbuilt
  obtain ⟨rfl, _⟩ := layOut_eq_ok hnames hblocks
  rw [scopeOf_map_blockOf] at hins houts
  refine ⟨?_, Circuit.nodup_names_of_build hbuilt side⟩
  cases side with
  | input =>
      rw [Circuit.slots, hin]
      exact hins
  | output =>
      rw [Circuit.slots, hout]
      exact houts

/-- **The slot of a plan is found under its name**, and it is not reported if no entry of the plan
is. -/
theorem findSlot?_of_makeSlots {plans : List SlotPlan} {scope : Scope} {side : Side}
    {slots : List Slot} {reports : Keyed (List Unresolved)}
    (h : makeSlots plans scope side = .ok (slots, reports))
    (hnodup : (slots.map Slot.name).Nodup) {plan : SlotPlan} (hplan : plan ∈ plans) {s : Slot}
    (hmake : plan.make scope side = .ok (s, [])) :
    Circuit.findSlot? s.name slots = some s ∧ s.name ∉ Keyed.names reports := by
  obtain ⟨all, hall, heq⟩ := Fault.bind_eq_ok_iff.1 h
  cases heq
  have hmem : (s, []) ∈ all := by
    obtain ⟨k, hk, rfl⟩ := List.getElem_of_mem hplan
    have hmade := Loop.mapM_eq_ok_iff.1 hall
    have hlength := hmade.length_eq
    have hstep := (List.forall₂_iff_get.1 hmade).2 k hk (by rw [← hlength]; exact hk)
    rw [List.get_eq_getElem, hmake] at hstep
    rw [Except.ok.inj hstep]
    exact List.getElem_mem _
  rw [List.map_map] at hnodup
  -- a slot of that name is the one that was made
  have hsame : ∀ m ∈ all, m.1.name = s.name → m = (s, []) := fun m hm hname =>
    List.inj_on_of_nodup_map hnodup hm hmem hname
  constructor
  · have hfound : (all.map Prod.fst).find? (fun t => t.name == s.name) ≠ none := by
      rw [ne_eq, List.find?_eq_none]
      exact fun hnone => hnone s (List.mem_map_of_mem hmem) (beq_self_eq_true _)
    obtain ⟨t, ht⟩ := Option.ne_none_iff_exists'.1 hfound
    obtain ⟨m, hm, rfl⟩ := List.mem_map.1 (List.mem_of_find?_eq_some ht)
    rw [hsame m hm (by simpa using List.find?_some ht)] at ht
    exact ht
  · intro hreported
    obtain ⟨_, hentry, hname⟩ := List.mem_map.1 hreported
    obtain ⟨m, hm, rfl⟩ := List.mem_map.1 hentry
    obtain ⟨hm, hlost⟩ := List.mem_filter.1 hm
    rw [hsame m hm hname] at hlost
    cases hlost

/-- If the planned slots are made, each plan is made. -/
theorem exists_make_of_makeSlots {plans : List SlotPlan} {scope : Scope} {side : Side}
    {made : List Slot × Keyed (List Unresolved)} (h : makeSlots plans scope side = .ok made)
    {plan : SlotPlan} (hplan : plan ∈ plans) : ∃ m, plan.make scope side = .ok m := by
  obtain ⟨all, hall, _⟩ := Fault.bind_eq_ok_iff.1 h
  exact Loop.mapM_isOk_iff.1 ⟨all, hall⟩ plan hplan

/-- The slot that a plan makes has the kind of the plan. -/
theorem kind_of_make {plan : SlotPlan} {scope : Scope} {side : Side} {s : Slot}
    {missing : List Unresolved} (h : plan.make scope side = .ok (s, missing)) :
    s.kind = plan.kind := by
  obtain ⟨_, _, _, rfl, _⟩ := SlotPlan.make_eq_ok_iff.1 h
  rfl

/-- The slot that is made of the plan of a sector shows the sector. -/
theorem exists_copy {a : Assembly} (hnames : (Keyed.names a.schemes).Nodup) {side : Side}
    {name path : String} {kind : Option String} {parts : Path} {t : Target} {p : SlotPlan}
    (hpath : Path.Names path parts) (ht : Denotes a.schemes side parts t)
    (hp : p ∈ a.plans side) (hplan : forwardPlan name kind parts t.slot t.sector = .ok p)
    {c : Circuit} {d : Diagnostics} (hlink : a.link = .ok (c, d)) :
    ∃ s, Circuit.findSlot? name (c.slots side) = some s ∧ name ∉ Keyed.names (d.slots side)
      ∧ s.kind = kind.getD t.sector.kind ∧ Shows s t
      ∧ s.sectors = if parts.sector = wholeSector then t.slot.sectors else [] := by
  have hname := (forwardPlan_eq_ok hplan).1
  have htarget : a.forwardTarget side path = .ok (parts, t.slot, t.sector) :=
    (forwardTarget_eq_ok_iff hnames).2 ⟨hpath, rfl, ht.2⟩
  have hforwards : a.Forwards side p := ⟨path, kind, parts, t.slot, t.sector, htarget,
    hname ▸ hplan⟩
  obtain ⟨hmade, hnodup⟩ := makeSlots_of_link hnames hlink side
  obtain ⟨⟨s, missing⟩, hmake⟩ := exists_make_of_makeSlots hmade hp
  obtain ⟨rfl, hs, t', ht', hshows, hsectors⟩ := hforwards.shows_of_make hnames hmake
  rw [passed_of_forwardPlan hpath hplan] at ht' hsectors
  obtain rfl := ht'.unique hnames ht
  obtain ⟨hfound, hunreported⟩ := findSlot?_of_makeSlots hmade hnodup hp hmake
  rw [hs, hname] at hfound hunreported
  refine ⟨s, hfound, hunreported, ?_, hshows, hsectors⟩
  rw [kind_of_make hmake, (forwardPlan_eq_ok hplan).2.1]

/-- **A slot that is passed on is a copy.**  An open assembly of circuits with proper sectors passes
a slot on exactly if the new name is not empty, has no separator and is not in use on that side, and
the path names a scheme and a slot and leads to a sector.  However the assembly is built further, if
it is compiled, nothing is reported on the new slot.  It has the given kind or that of the sector,
and the size of the sector; behind its points stand the units behind those of the sector, in order,
counted from the first unit of their circuit; and a slot that is passed on as a whole has its
sectors.  Every assembly that is built from such circuits is one of these
(`Assembly.holds_run`). -/
theorem forward_copies {a : Assembly} (ha : a.Holds Circuit.Sectored) (hopen : a.consumed = false)
    (side : Side) (name path : String) (kind : Option String) :
    ((∃ b, forward side name path kind a = .ok () b) ↔
        name ≠ "" ∧ Path.separator ∉ name.toList ∧ name ∉ (a.plans side).map SlotPlan.name
          ∧ (∃ parts, Path.Names path parts)
          ∧ ∃ t, (scope a.schemes side).resolve path = .ok t)
      ∧ ∀ b, forward side name path kind a = .ok () b →
        ∃ parts t, Path.Names path parts ∧ (scope a.schemes side).resolve path = .ok t
          ∧ ∀ (later : List Call) (c : Circuit) (d : Diagnostics) (z : Assembly),
            compile (run later b) = .ok (c, d) z →
            ∃ s, Circuit.findSlot? name (c.slots side) = some s
              ∧ name ∉ Keyed.names (d.slots side)
              ∧ s.kind = kind.getD t.sector.kind
              ∧ s.size = t.sector.size
              ∧ (∀ p, p.isInside s.size = true →
                s.getPoint p = (t.slot.getPoint (p + t.sector.pos)).map fun i =>
                  i + (offset (run later b).schemes parts.scheme : Int))
              ∧ s.sectors = if parts.sector = wholeSector then t.slot.sectors else [] := by
  refine ⟨exists_forward_iff ha hopen side name path kind, fun b hb => ?_⟩
  obtain ⟨_, _, _, parts, slot, sector, p, htarget, hplan, rfl⟩ := forward_eq_ok_iff.1 hb
  obtain ⟨hpath, hdenotes⟩ := (forwardTarget_eq_ok_iff ha.names).1 htarget
  refine ⟨parts, _, hpath, (resolve_of_names ha.names hpath).2 hdenotes, ?_⟩
  intro later c d z hcompiled
  obtain ⟨_, hlink, _⟩ := compile_eq_ok_iff.1 hcompiled
  -- the circuit and the plan are still there, whatever was called
  obtain ⟨_, circuit, hcircuit, hfound⟩ := hdenotes
  have hschemes : (a.pushPlan side p).schemes = a.schemes := by cases side <;> rfl
  have hplanned : p ∈ (a.pushPlan side p).plans side := by
    rw [plans_pushPlan, if_pos rfl]
    exact List.mem_append_right _ List.mem_cons_self
  have hnames : (Keyed.names (run later (a.pushPlan side p)).schemes).Nodup :=
    (@holds_run (fun _ => True) later _ ⟨hschemes ▸ ha.names, fun _ _ => trivial⟩
      fun _ _ _ _ _ _ => trivial).names
  obtain ⟨s, hslot, hunreported, hkind, hshows, hsectors⟩ := exists_copy hnames hpath
    (t := ⟨offset (run later (a.pushPlan side p)).schemes parts.scheme, slot, sector⟩)
    ⟨rfl, circuit, mem_schemes_run (hschemes ▸ hcircuit) later, hfound⟩
    (mem_plans_run hplanned later) hplan hlink
  refine ⟨s, hslot, hunreported, hkind, hshows.size, fun q hq => ?_, hsectors⟩
  rw [hshows.size] at hq
  rw [hshows.getPoint, Target.reach_of_isInside hq]
  rfl

/-- A slot of two points, the second of which is a sector whose name has a separator. -/
def mooring : Slot where
  name := "in"
  kind := "word"
  ids := .ofFn (SlotPlan.wordSize 2) fun p => if p = .origin then [0] else [1, 0, 1]
  sectors := [("low/bit", ⟨⟨1, 0, 0⟩, .one, "bit"⟩)]

/-- Two gates behind the slot of two points. -/
def quay : Circuit where
  units := [⟨⟨.gate .or, [], none, false⟩, ⟨0, 0, 0⟩, .identity⟩,
    ⟨⟨.gate .and, [0], none, false⟩, ⟨1, 0, 0⟩, .identity⟩]
  inputs := [mooring]
  outputs := []
  bounds := ⟨2, 1, 1⟩

/-- Two gates in a row, and behind them the two gates with the slot of two points. -/
def harbour : Assembly where
  positioner := .manual ⟨[("left", ⟨some ⟨0, 0, 0⟩, .identity⟩),
    ("right", ⟨some ⟨9, 0, 5⟩, .identity⟩)], some "right"⟩
  config := .standard
  schemes := [("left", twoGates), ("right", quay)]
  links := []
  inputs := []
  outputs := []
  consumed := false

/-- The slot of one point is passed on before another circuit is added, and is connected. -/
theorem forward_copies_harbour :
    harbour.Holds Circuit.Sectored ∧ harbour.consumed = false
      ∧ ∃ b c d z, forward .input "x" "right/in/low/bit" none harbour = .ok () b
        ∧ compile (run [.add "top" (.circuit quay), .place "top" ⟨0, 3, 0⟩,
            .forward .input "all" "top/in" (some "bus"), .connect "left" "right/in" .straight] b)
          = .ok (c, d) z
        ∧ ∃ s, Circuit.findSlot? "x" c.inputs = some s ∧ "x" ∉ Keyed.names d.inputs
          ∧ s.kind = "bit" ∧ s.size = .one ∧ s.getPoint .origin = [3, 2, 3] ∧ s.sectors = [] := by
  have hmooring : mooring.Reached (Point.origin ≤ ·) := by
    have hsize : Point.origin ≤ .one := Point.isSize_iff_origin_le.1 rfl
    have hbound : (⟨"in", "word", mooring.ids, []⟩ : Slot).bindSector "low/bit"
        ⟨⟨1, 0, 0⟩, .one, "bit"⟩ = .ok mooring := rfl
    exact .declared (.bare _ _ _) hsize hbound
  have hholds : harbour.Holds Circuit.Sectored := by
    refine ⟨by decide, fun scheme hscheme => Circuit.sectored_of_reached fun side s hs => ?_⟩
    rcases List.mem_cons.1 hscheme with rfl | hscheme
    · cases side <;>
        (obtain rfl := List.mem_singleton.1 hs
         exact .bare _ _ _)
    · obtain rfl := List.mem_singleton.1 hscheme
      cases side with
      | input =>
          obtain rfl := List.mem_singleton.1 hs
          exact hmooring
      | output => cases hs
  obtain ⟨_, hcopied⟩ := forward_copies hholds rfl .input "x" "right/in/low/bit" none
  obtain ⟨parts, t, hpath, ht, hcompiled⟩ := hcopied _ rfl
  obtain rfl := hpath.read_eq defaultSlot
  cases ht
  obtain ⟨s, hfound, hunreported, hkind, hsize, hpoints, hsectors⟩ := hcompiled
    [.add "top" (.circuit quay), .place "top" ⟨0, 3, 0⟩,
      .forward .input "all" "top/in" (some "bus"), .connect "left" "right/in" .straight] _ _ _ rfl
  refine ⟨hholds, rfl, _, _, _, _, rfl, rfl, s, hfound, hunreported, hkind, hsize, ?_, hsectors⟩
  rw [hpoints _ (by rw [hsize]; rfl)]
  rfl

end Assembly

end Breadboard
