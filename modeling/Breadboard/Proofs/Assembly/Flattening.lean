import Breadboard.Proofs.Assembly.Building
import Breadboard.Proofs.Assembly.Connections

/-!
**What compiling an assembly gives.**

Compiling places the circuits one behind the other and draws the links, each unit keeping its part,
its colour and its mark.  What a unit becomes can be said without the growing list of units: its
place is a rigid motion of its old one, and its receivers are its own, renumbered, followed by those
that the links give it.

Main definitions:

* `Assembly.laidOut` — the units of all circuits before any connection is drawn;
* `Assembly.Stages` — the intermediate results of linking an assembly, stage by stage;
* `Assembly.Linking` — the same without the growing list of units;
* `Assembly.sent` — the receivers that one link gives to one unit.

Main results:

* `Assembly.link_eq_ok_iff_stages` — **linking, stage by stage**;
* `Assembly.link_eq`, `Assembly.link_eq_ok_iff` — **linking without the growing list of units**, and
  as a list of conditions;
* `Assembly.receivers_linkConnections` — what one link gives to one unit;
* `Assembly.compile_units` — **every unit of a compiled assembly**.
-/

set_option autoImplicit false
set_option relaxedAutoImplicit false

namespace Breadboard

namespace Assembly

/-- The units of all circuits at their places, before any connection is drawn. -/
def laidOut (schemes : Keyed Circuit) (places : Keyed (Point × Turn)) : List Element :=
  schemes.flatMap fun s => seated places (offset schemes s.1) s

/-- An assembly that was compiled before is refused. -/
theorem compile_of_consumed {a : Assembly} (h : a.consumed = true) :
    compile a = .error .consumed a := by
  obtain ⟨positioner, config, schemes, links, inputs, outputs, consumed⟩ := a
  cases h
  rfl

/-- Compiling an assembly that accepts calls is linking it. -/
theorem compile_of_open {a : Assembly} (h : a.consumed = false) :
    compile a = match a.link with
      | .ok r => .ok r { a with consumed := true }
      | .error fault => .error fault { a with consumed := true } := by
  obtain ⟨positioner, config, schemes, links, inputs, outputs, consumed⟩ := a
  cases h
  -- the flag that is set in between is not read
  show answer (link ⟨positioner, config, schemes, links, inputs, outputs, false⟩) _ = _
  cases link ⟨positioner, config, schemes, links, inputs, outputs, false⟩ <;> rfl

/-- Compiling succeeds exactly if the assembly accepts calls and is linked. -/
theorem compile_eq_ok_iff {a a' : Assembly} {r : Circuit × Diagnostics} :
    compile a = .ok r a' ↔
      a.consumed = false ∧ a.link = .ok r ∧ a' = { a with consumed := true } := by
  cases hopen : a.consumed with
  | true =>
      rw [compile_of_consumed hopen]
      simp
  | false =>
      rw [compile_of_open hopen]
      cases a.link <;> simp [eq_comm]

/-! ### Linking -/

section Linking

variable {a : Assembly}

theorem length_seated (places : Keyed (Point × Turn)) (first : Int) (s : String × Circuit) :
    (seated places first s).length = s.2.units.length := by
  simp [seated]

theorem length_laidOut (schemes : Keyed Circuit) (places : Keyed (Point × Turn)) :
    (laidOut schemes places).length = unitCount schemes :=
  length_flatMap_units fun s _ => length_seated places (offset schemes s.1) s

/-- The slots that paths can name address units that exist. -/
theorem inRange_scope (ha : a.Sound) (side : Side) :
    (scope a.schemes side).InRange (unitCount a.schemes) := by
  intro entry hentry s hs p i hi
  obtain ⟨⟨name, c⟩, hmem, rfl⟩ := List.mem_map.1 hentry
  obtain ⟨h0, hlt⟩ : 0 ≤ i ∧ i < c.units.length := ha.slots (name, c) hmem side s hs p i hi
  have hbound := offset_add_lt hmem ha.names (i := i.toNat) (by omega)
  simp only []
  omega

/-- The intermediate results of linking, stage by stage: the places, the blocks, the planned slots
of both sides with the entries that lead nowhere, and the units with the links that are not
drawn. -/
structure Stages (a : Assembly) (places : Keyed (Point × Turn)) (blocks : List Block)
    (ins outs : List Slot × Keyed (List Unresolved)) (linked : List Element × List BrokenLink)
    (c : Circuit) (d : Diagnostics) : Prop where
  arranged : a.positioner.arrange (Keyed.names a.schemes) = .ok places
  laid : layOut places 0 a.schemes = .ok blocks
  inputs : makeSlots a.inputs (scopeOf blocks .input) .input = .ok ins
  outputs : makeSlots a.outputs (scopeOf blocks .output) .output = .ok outs
  drawn : a.links.foldlM (draw (scopeOf blocks .output) (scopeOf blocks .input))
    (blocks.flatMap Block.units, []) = .ok linked
  checked : checkFanOut a.config (scopeOf blocks .output) (scopeOf blocks .input) linked.1 = .ok ()
  built : Circuit.build linked.1 ins.1 outs.1 = .ok c
  reported : d = ⟨linked.2, ins.2, outs.2⟩

/-- **Linking, stage by stage.** -/
theorem link_eq_ok_iff_stages {c : Circuit} {d : Diagnostics} :
    a.link = .ok (c, d) ↔
      ∃ places blocks ins outs linked, Stages a places blocks ins outs linked c d := by
  constructor
  · intro h
    obtain ⟨places, hplaces, h⟩ := Fault.bind_eq_ok_iff.1 h
    obtain ⟨blocks, hblocks, h⟩ := Fault.bind_eq_ok_iff.1 h
    obtain ⟨ins, hins, h⟩ := Fault.bind_eq_ok_iff.1 h
    obtain ⟨outs, houts, h⟩ := Fault.bind_eq_ok_iff.1 h
    obtain ⟨linked, hdrawn, h⟩ := Fault.bind_eq_ok_iff.1 h
    obtain ⟨⟨⟩, hcheck, h⟩ := Fault.bind_eq_ok_iff.1 h
    obtain ⟨circuit, hbuilt, h⟩ := Fault.bind_eq_ok_iff.1 h
    cases h
    exact ⟨places, blocks, ins, outs, linked, hplaces, hblocks, hins, houts, hdrawn, hcheck, hbuilt,
      rfl⟩
  · rintro ⟨places, blocks, ins, outs, linked, hstages⟩
    refine Fault.bind_eq_ok_iff.2 ⟨places, hstages.arranged, ?_⟩
    refine Fault.bind_eq_ok_iff.2 ⟨blocks, hstages.laid, ?_⟩
    refine Fault.bind_eq_ok_iff.2 ⟨ins, hstages.inputs, ?_⟩
    refine Fault.bind_eq_ok_iff.2 ⟨outs, hstages.outputs, ?_⟩
    refine Fault.bind_eq_ok_iff.2 ⟨linked, hstages.drawn, ?_⟩
    refine Fault.bind_eq_ok_iff.2 ⟨(), hstages.checked, ?_⟩
    refine Fault.bind_eq_ok_iff.2 ⟨c, hstages.built, ?_⟩
    rw [hstages.reported]
    rfl

/-- **Linking without the growing list of units**: the connections of all links are found first, and
then they are drawn at once. -/
theorem link_eq (ha : a.Sound) : a.link = (do
    let places ← a.positioner.arrange (Keyed.names a.schemes)
    let _ ← layOut places 0 a.schemes
    let ins ← makeSlots a.inputs (scope a.schemes .input) .input
    let outs ← makeSlots a.outputs (scope a.schemes .output) .output
    let connections ←
      a.links.mapM (linkConnections (scope a.schemes .output) (scope a.schemes .input))
    let units := attach connections.flatten (laidOut a.schemes places)
    checkFanOut a.config (scope a.schemes .output) (scope a.schemes .input) units
    let circuit ← Circuit.build units ins.1 outs.1
    pure (circuit, ⟨a.links.flatMap (linkReport (scope a.schemes .output) (scope a.schemes .input)),
      ins.2, outs.2⟩)) := by
  unfold link
  refine bind_congr fun places => ?_
  cases hblocks : layOut places 0 a.schemes with
  | error fault => rfl
  | ok blocks =>
      -- from here on the blocks are known, and the scopes and the units that are read off them
      obtain ⟨rfl, _⟩ := layOut_eq_ok ha.names hblocks
      have hlength : (scope a.schemes .output).InRange (laidOut a.schemes places).length := by
        rw [length_laidOut]
        exact inRange_scope ha .output
      simp only [scopeOf_map_blockOf, flatMap_units_map_blockOf, Fault.ok_bind]
      refine bind_congr fun ins => bind_congr fun outs => ?_
      rw [← laidOut, foldlM_draw_eq hlength]
      simp only [bind_assoc, pure_bind, List.nil_append]

/-- The intermediate results of linking: the places, the connections of each link, and the planned
slots of both sides with the entries that lead nowhere. -/
structure Linking (a : Assembly) (places : Keyed (Point × Turn))
    (connections : List (List (Int × Int))) (ins outs : List Slot × Keyed (List Unresolved))
    (c : Circuit) (d : Diagnostics) : Prop where
  arranged : a.positioner.arrange (Keyed.names a.schemes) = .ok places
  laid : layOut places 0 a.schemes = .ok (a.schemes.map (blockOf places 0 a.schemes))
  inputs : makeSlots a.inputs (scope a.schemes .input) .input = .ok ins
  outputs : makeSlots a.outputs (scope a.schemes .output) .output = .ok outs
  drawn : a.links.mapM (linkConnections (scope a.schemes .output) (scope a.schemes .input))
    = .ok connections
  checked : checkFanOut a.config (scope a.schemes .output) (scope a.schemes .input)
    (attach connections.flatten (laidOut a.schemes places)) = .ok ()
  built : Circuit.build (attach connections.flatten (laidOut a.schemes places)) ins.1 outs.1 = .ok c
  reported : d = ⟨a.links.flatMap (linkReport (scope a.schemes .output) (scope a.schemes .input)),
    ins.2, outs.2⟩

/-- **Linking, as a list of conditions.** -/
theorem link_eq_ok_iff (ha : a.Sound) {c : Circuit} {d : Diagnostics} :
    a.link = .ok (c, d) ↔
      ∃ places connections ins outs, Linking a places connections ins outs c d := by
  rw [link_eq ha]
  constructor
  · intro h
    obtain ⟨places, hplaces, h⟩ := Fault.bind_eq_ok_iff.1 h
    obtain ⟨blocks, hblocks, h⟩ := Fault.bind_eq_ok_iff.1 h
    have hlaid := hblocks
    obtain ⟨rfl, _⟩ := layOut_eq_ok ha.names hblocks
    obtain ⟨ins, hins, h⟩ := Fault.bind_eq_ok_iff.1 h
    obtain ⟨outs, houts, h⟩ := Fault.bind_eq_ok_iff.1 h
    obtain ⟨connections, hlinks, h⟩ := Fault.bind_eq_ok_iff.1 h
    obtain ⟨⟨⟩, hcheck, h⟩ := Fault.bind_eq_ok_iff.1 h
    obtain ⟨circuit, hbuilt, h⟩ := Fault.bind_eq_ok_iff.1 h
    cases h
    exact ⟨places, connections, ins, outs, hplaces, hlaid, hins, houts, hlinks, hcheck, hbuilt,
      rfl⟩
  · rintro ⟨places, connections, ins, outs, hlinking⟩
    refine Fault.bind_eq_ok_iff.2 ⟨places, hlinking.arranged, ?_⟩
    refine Fault.bind_eq_ok_iff.2 ⟨_, hlinking.laid, ?_⟩
    refine Fault.bind_eq_ok_iff.2 ⟨ins, hlinking.inputs, ?_⟩
    refine Fault.bind_eq_ok_iff.2 ⟨outs, hlinking.outputs, ?_⟩
    refine Fault.bind_eq_ok_iff.2 ⟨connections, hlinking.drawn, ?_⟩
    refine Fault.bind_eq_ok_iff.2 ⟨(), hlinking.checked, ?_⟩
    refine Fault.bind_eq_ok_iff.2 ⟨c, hlinking.built, ?_⟩
    rw [hlinking.reported]
    rfl

/-- The units of a linked assembly are those of all circuits. -/
theorem Linking.length_units {places : Keyed (Point × Turn)}
    {connections : List (List (Int × Int))} {ins outs : List Slot × Keyed (List Unresolved)}
    {c : Circuit} {d : Diagnostics} (h : Linking a places connections ins outs c d) :
    c.units.length = unitCount a.schemes := by
  rw [(Circuit.build_eq_ok h.built).1, length_attach, length_laidOut]

/-- The slots of a linked assembly are those that its plans make. -/
theorem Linking.exists_made {places : Keyed (Point × Turn)}
    {connections : List (List (Int × Int))} {ins outs : List Slot × Keyed (List Unresolved)}
    {c : Circuit} {d : Diagnostics} (h : Linking a places connections ins outs c d) (side : Side) :
    ∃ made, makeSlots (a.plans side) (scope a.schemes side) side = .ok made
      ∧ c.slots side = made.1 := by
  obtain ⟨_, hins, houts, _⟩ := Circuit.build_eq_ok h.built
  cases side with
  | input => exact ⟨ins, h.inputs, hins⟩
  | output => exact ⟨outs, h.outputs, houts⟩

end Linking

/-! ### The receivers of one unit -/

/-- The receivers that a pair of points gives to unit `i` of the circuit `name`, where the start is
a point of the circuit `sender`: all units behind the end, once for each time that the unit stands
behind the start. -/
def sentOver (name : String) (i : Nat) (sender : String) (source target : Target)
    (pair : Pair) : List Int :=
  if sender = name then
    ((source.slot.getPoint pair.1).filter fun k => k == (i : Int)).flatMap fun _ =>
      target.unitsAt pair.2
  else []

/-- The receivers that one link gives to unit `i` of the circuit `name`; none if a path leads
nowhere. -/
def sent (schemes : Keyed Circuit) (name : String) (i : Nat) (link : Link) : List Int :=
  match (scope schemes .output).resolve link.source, (scope schemes .input).resolve link.target with
  | .ok source, .ok target =>
      match link.wiring.pairs source.sector.size target.sector.size with
      | .ok proposed =>
          (Frame.liftPairs source.frame target.frame proposed).flatMap
            (sentOver name i (Path.read defaultSlot link.source).scheme source target)
      | .error _ => []
  | _, _ => []

/-- The entries that meet a condition, each replaced by a list. -/
theorem flatMap_filter {α β : Type} (l : List α) (p : α → Bool) (f : α → List β) :
    (l.filter p).flatMap f = l.flatMap fun x => if p x = true then f x else [] := by
  induction l with
  | nil => rfl
  | cons x rest ih => cases h : p x <;> simp [h, ih]

/-- What a pair of points gives to one unit. -/
theorem receivers_pairConnections {schemes : Keyed Circuit} (hnames : (Keyed.names schemes).Nodup)
    (hslots : ∀ s ∈ schemes, s.2.SlotsInRange) {name : String} {c : Circuit}
    (hmem : (name, c) ∈ schemes) {i : Nat} (hi : i < c.units.length) {path : String}
    {source target : Target} (hsource : (scope schemes .output).resolve path = .ok source)
    (pair : Pair) :
    receivers (pairConnections source target pair) ((offset schemes name : Int) + i)
      = sentOver name i (Path.read defaultSlot path).scheme source target pair := by
  obtain ⟨entry, hentry, hscheme, hoffset, hslot⟩ := Scope.resolve_eq_ok hsource
  obtain ⟨⟨sender, d⟩, hsender, rfl⟩ := List.mem_map.1 hentry
  simp only [] at hscheme hoffset hslot
  -- units of other circuits stand in other blocks, so only those of `name` can be the given one
  have hunit : ∀ k ∈ source.slot.getPoint pair.1,
      k + source.offset = (offset schemes name : Int) + i ↔ sender = name ∧ k = i := by
    intro k hk
    obtain ⟨h0, hlt⟩ : 0 ≤ k ∧ k < d.units.length :=
      hslots (sender, d) hsender .output source.slot hslot pair.1 k hk
    have hinj := offset_add_inj hnames hsender hmem (i := k.toNat) (by omega) hi
    rw [hoffset]
    constructor
    · intro e
      have he := hinj.1 (by omega)
      exact ⟨he.1, by omega⟩
    · intro e
      have he := hinj.2 ⟨e.1, by omega⟩
      omega
  have hunits : source.unitsAt pair.1
      = (source.slot.getPoint pair.1).map fun k => k + source.offset := rfl
  rw [pairConnections, receivers_flatMap, hunits, List.flatMap_map, sentOver, ← hscheme]
  simp only [receivers_map]
  by_cases hself : sender = name
  · rw [if_pos hself, flatMap_filter]
    refine List.flatMap_congr fun k hk => ?_
    simp [hunit k hk, hself]
  · rw [if_neg hself, List.flatMap_eq_nil_iff]
    intro k hk
    simp [hunit k hk, hself]

/-- **What one link gives to one unit.** -/
theorem receivers_linkConnections {schemes : Keyed Circuit} (hnames : (Keyed.names schemes).Nodup)
    (hslots : ∀ s ∈ schemes, s.2.SlotsInRange) {name : String} {c : Circuit}
    (hmem : (name, c) ∈ schemes) {i : Nat} (hi : i < c.units.length) {link : Link}
    {connections : List (Int × Int)}
    (h : linkConnections (scope schemes .output) (scope schemes .input) link = .ok connections) :
    receivers connections ((offset schemes name : Int) + i) = sent schemes name i link := by
  cases hsource : (scope schemes .output).resolve link.source with
  | error missing =>
      simp only [linkConnections, hsource] at h
      cases h
      simp only [sent, hsource]
      rfl
  | ok source =>
      cases htarget : (scope schemes .input).resolve link.target with
      | error missing =>
          simp only [linkConnections, hsource, htarget] at h
          cases h
          simp only [sent, hsource, htarget]
          rfl
      | ok target =>
          simp only [linkConnections, hsource, htarget] at h
          obtain ⟨proposed, hproposed, h⟩ := Fault.bind_eq_ok_iff.1 h
          cases h
          simp only [sent, hsource, htarget, hproposed]
          rw [receivers_flatMap]
          exact List.flatMap_congr fun pair _ =>
            receivers_pairConnections hnames hslots hmem hi hsource pair

/-- What all links give to one unit. -/
theorem receivers_flatten {schemes : Keyed Circuit} (hnames : (Keyed.names schemes).Nodup)
    (hslots : ∀ s ∈ schemes, s.2.SlotsInRange) {name : String} {c : Circuit}
    (hmem : (name, c) ∈ schemes) {i : Nat} (hi : i < c.units.length) {links : List Link}
    {connections : List (List (Int × Int))}
    (h : links.mapM (linkConnections (scope schemes .output) (scope schemes .input))
      = .ok connections) :
    receivers connections.flatten ((offset schemes name : Int) + i)
      = links.flatMap (sent schemes name i) := by
  have hall := Loop.mapM_eq_ok_iff.1 h
  clear h
  induction hall with
  | nil => rfl
  | cons hlink _ ih =>
      rw [List.flatten_cons, receivers_append, List.flatMap_cons, ih,
        receivers_linkConnections hnames hslots hmem hi hlink]

/-! ### The units of a compiled assembly -/

/-- **Every unit of a compiled assembly.**  The block of a circuit begins behind the units of the
circuits that were added before it.  A unit keeps its part, its colour and its mark; its place and
its turn are those of the circuit, applied to its place relative to the bounding box and to its
turn; its receivers are its own, renumbered, and behind them what each link gives it. -/
theorem compile_units {a a' : Assembly} {c : Circuit} {d : Diagnostics} (ha : a.Sound)
    (h : compile a = .ok (c, d) a') :
    c.units.length = unitCount a.schemes
      ∧ (∀ link ∈ a.links, ∀ source target,
          (scope a.schemes .output).resolve link.source = .ok source →
          (scope a.schemes .input).resolve link.target = .ok target →
          ∃ proposed, link.wiring.pairs source.sector.size target.sector.size = .ok proposed)
      ∧ ∃ places, a.positioner.arrange (Keyed.names a.schemes) = .ok places
        ∧ ∀ name circuit, (name, circuit) ∈ a.schemes →
          ∃ place turn start size, Keyed.find? name places = some (place, turn)
            ∧ Circuit.boundingBox circuit.units = .ok (start, size)
            ∧ ∀ i e, circuit.units[i]? = some e →
              c.units[offset a.schemes name + i]? = some
                { part := e.part
                  color := e.color
                  pinned := e.pinned
                  pos := place + turn.act (e.pos - start)
                  turn := turn.after e.turn
                  wires := (e.wires.map fun w => w + offset a.schemes name)
                    ++ a.links.flatMap (sent a.schemes name i) } := by
  obtain ⟨_, hlink, _⟩ := compile_eq_ok_iff.1 h
  obtain ⟨places, connections, ins, outs, hlinking⟩ := (link_eq_ok_iff ha).1 hlink
  obtain ⟨hunits, _⟩ := Circuit.build_eq_ok hlinking.built
  obtain ⟨_, hboxes⟩ := layOut_eq_ok ha.names hlinking.laid
  refine ⟨?_, ?_, places, hlinking.arranged, ?_⟩
  · rw [hunits, length_attach, length_laidOut]
  · intro link hmem source target hsource htarget
    have hall := Loop.mapM_eq_ok_iff.1 hlinking.drawn
    obtain ⟨k, hk, rfl⟩ := List.getElem_of_mem hmem
    have hdrawn := (List.forall₂_iff_get.1 hall).2 k hk (by rw [← hall.length_eq]; exact hk)
    simp only [List.get_eq_getElem, linkConnections, hsource, htarget] at hdrawn
    obtain ⟨proposed, hproposed, _⟩ := Fault.bind_eq_ok_iff.1 hdrawn
    exact ⟨proposed, hproposed⟩
  · intro name circuit hmem
    -- the unit is found in the block of its circuit, and its receivers among the drawn ones
    obtain ⟨⟨start, size⟩, hbox⟩ := hboxes (name, circuit) hmem
    obtain ⟨place, turn, hplace⟩ :=
      find?_arrange hlinking.arranged (List.mem_map.2 ⟨(name, circuit), hmem, rfl⟩)
    refine ⟨place, turn, start, size, hplace, hbox, ?_⟩
    intro i e he
    have hi : i < circuit.units.length := (List.getElem?_eq_some_iff.1 he).1
    have hseat : seat places name = (place, turn) := by rw [seat, hplace]; rfl
    have hlaid : (laidOut a.schemes places)[offset a.schemes name + i]?
        = some (Circuit.relocated start place turn (offset a.schemes name) e) := by
      rw [laidOut, getElem?_flatMap_offset (fun s _ => length_seated places _ s) ha.names hmem hi,
        seated, List.getElem?_map, he, Circuit.corner_eq hbox, hseat]
      rfl
    have hsent := receivers_flatten ha.names ha.slots hmem hi hlinking.drawn
    rw [hunits, getElem?_attach, hlaid, Int.natCast_add, hsent]
    simp [Circuit.relocated, Device.shiftWires, Point.add_def, Int.add_comm]

/-- Two gates in a row, the first of which sends to the second.  The output shows the first gate
twice and the second once. -/
def twoGates : Circuit where
  units := [⟨⟨.gate .or, [1], none, false⟩, ⟨3, 0, 0⟩, .identity⟩,
    ⟨⟨.gate .xor, [], some "222222", true⟩, ⟨4, 0, 0⟩, .quarterX⟩]
  inputs := [⟨"_", "bit", .single [1, 0], []⟩]
  outputs := [⟨"_", "bit", .single [0, 1, 0], []⟩]
  bounds := ⟨2, 1, 1⟩

/-- Two circuits of two gates each, the second of them turned, that send to each other; one link
leads nowhere. -/
def ring : Assembly where
  positioner := .manual ⟨[("left", ⟨some ⟨0, 0, 0⟩, .identity⟩),
    ("right", ⟨some ⟨9, 0, 5⟩, .quarterZ⟩)], some "right"⟩
  config := .standard
  schemes := [("left", twoGates), ("right", twoGates)]
  links := [⟨"left", "right/_", .straight⟩, ⟨"left", "middle", .straight⟩,
    ⟨"right", "left", .dim true false false⟩]
  inputs := []
  outputs := []
  consumed := false

theorem sound_ring : ring.Sound := by
  have hslots : twoGates.SlotsInRange := by
    intro side s hs
    rw [← Slot.dangling?_eq_none_iff_inRange]
    cases side <;> (obtain rfl := List.mem_singleton.1 hs; decide)
  refine ⟨by decide, ?_⟩
  intro s hs
  simp only [ring, List.mem_cons, List.not_mem_nil, or_false] at hs
  rcases hs with rfl | rfl <;> exact hslots

/-- The second unit of the turned circuit of the ring. -/
theorem compile_units_ring :
    ∃ c d a', ring.Sound ∧ compile ring = .ok (c, d) a' ∧ c.units.length = 4
      ∧ (c.units[2]?).map (fun e => (e.pos, e.turn, e.wires))
        = some (⟨9, 0, 5⟩, .quarterZ, [3, 1, 0, 1, 0])
      ∧ (c.units[3]?).map (fun e => (e.pos, e.turn, e.wires))
        = some (⟨9, 1, 5⟩, Turn.quarterZ.after .quarterX, [1, 0]) := by
  obtain ⟨c, d, a', h⟩ : ∃ c d a', compile ring = .ok (c, d) a' := ⟨_, _, _, rfl⟩
  obtain ⟨hlength, _, places, hplaces, hunits⟩ := compile_units sound_ring h
  obtain ⟨place, turn, start, size, hplace, hbox, hright⟩ :=
    hunits "right" twoGates (List.mem_cons_of_mem _ List.mem_cons_self)
  cases hplaces
  cases hplace
  cases hbox
  refine ⟨c, d, a', sound_ring, h, hlength, ?_, ?_⟩
  · have hfirst := hright 0 _ rfl
    rw [show c.units[2]? = _ from hfirst]
    rfl
  · have hsecond := hright 1 _ rfl
    rw [show c.units[3]? = _ from hsecond]
    rfl

end Assembly

end Breadboard
