import Breadboard.Proofs.Preset.FullAdder
import Breadboard.Proofs.Preset.GateRows

/-!
**The compact adder adds, with carry in and carry out.**

The compact adder is made of five rows of gates: for the carries, three that carry to the next
place, and one for the sum.  Unit `n k + x` is place `x` of row `k`.  As in the chain of full adders
the ranks grow by two with each place.  The rows are turned, and turning a place that does not fit a
word fails, so there is a greatest width.

Main definitions:

* `Arithmetic.CompactRows` — the rows, and `Arithmetic.CompactRows.placed` — the design;
* `Arithmetic.IsCompact` — the adder as it is compiled;
* `Arithmetic.compactState`, `Arithmetic.compactRank` — the final states and the ranks.

Main results:

* `Arithmetic.exists_compact` — the gates, the connections and the slots of the compact adder;
* `Arithmetic.IsCompact.follows` — every gate follows the final states;
* `Arithmetic.adderCompact_eq_error` — it is not compiled if its rows are too long;
* `Arithmetic.adderCompact_adds` — **the compact adder adds, for every width of fewer than `2 ^ 60`
  bits**.
-/

set_option autoImplicit false
set_option relaxedAutoImplicit false

namespace Breadboard

namespace Arithmetic

/-! ### The design -/

/-- The rows of the compact adder. -/
structure CompactRows (n : Nat) where
  carry : Circuit
  and : Circuit
  res : Circuit
  isCarry : IsGateRow carry n .or .identity
  isAnd : IsGateRow and n .and .identity
  isRes : IsGateRow res n .xor (.facing .negY)

/-- The gates of the rows of the compact adder. -/
def rowGates : List GateMode := [.or, .and, .and, .and, .xor]

namespace CompactRows

variable {n : Nat}

/-- The rows at their places. -/
def placed (rows : CompactRows n) : List Placed :=
  [⟨"carry", rows.carry, ⟨1, 0, 1⟩, laid⟩,
   ⟨"and_1", rows.and, ⟨0, 0, 0⟩, laid⟩,
   ⟨"and_2", rows.and, ⟨0, 0, 1⟩, laid⟩,
   ⟨"and_3", rows.and, ⟨1, 0, 0⟩, laid⟩,
   ⟨"res", rows.res, ⟨2, 0, 0⟩, laid⟩]

theorem nodup_names (rows : CompactRows n) : (rows.placed.map Placed.name).Nodup := by
  show List.Nodup ["carry", "and_1", "and_2", "and_3", "res"]
  decide

/-- Every row is a row of gates of its mode. -/
theorem exists_isGateRow (rows : CompactRows n) {k : Nat} {p : Placed}
    (hp : rows.placed[k]? = some p) :
    ∃ mode turn, rowGates[k]? = some mode ∧ IsGateRow p.circuit n mode turn := by
  match k, hp with
  | 0, rfl => exact ⟨_, _, rfl, rows.isCarry⟩
  | 1, rfl => exact ⟨_, _, rfl, rows.isAnd⟩
  | 2, rfl => exact ⟨_, _, rfl, rows.isAnd⟩
  | 3, rfl => exact ⟨_, _, rfl, rows.isAnd⟩
  | 4, rfl => exact ⟨_, _, rfl, rows.isRes⟩

theorem isGateRow_of_mem (rows : CompactRows n) {p : Placed} (hp : p ∈ rows.placed) :
    ∃ mode turn, IsGateRow p.circuit n mode turn := by
  obtain ⟨k, hk⟩ := List.getElem?_of_mem hp
  obtain ⟨mode, turn, _, hrow⟩ := rows.exists_isGateRow hk
  exact ⟨mode, turn, hrow⟩

theorem length_of_mem (rows : CompactRows n) {p : Placed} (hp : p ∈ rows.placed) :
    p.circuit.units.length = n := by
  obtain ⟨mode, turn, hrow⟩ := rows.isGateRow_of_mem hp
  exact hrow.length_units

/-- The slots of one side that paths can name. -/
def scope (rows : CompactRows n) (side : Side) : Scope :=
  Assembly.scope (Assembly.circuits rows.placed) side

section Paths

variable (rows : CompactRows n) {k : Nat} {p : Placed}

/-- The name of a row leads to its places. -/
theorem leadsTo_row (hp : rows.placed[k]? = some p) (side : Side) {path : String}
    (hpath : Path.read defaultSlot path = ⟨p.name, defaultSlot, ""⟩) :
    (rows.scope side).LeadsTo path n fun x => [((n * k + x : Nat) : Int)] := by
  have hmem := List.mem_of_getElem? hp
  obtain ⟨mode, turn, hrow⟩ := rows.isGateRow_of_mem hmem
  have hlead := Assembly.leadsTo_slot (Assembly.names_circuits.symm ▸ rows.nodup_names)
    (Assembly.mem_circuits hmem) (hrow.findSlot?_eq side) (Circuit.isRow_cubeSlot n _) hpath
  rw [Assembly.offset_eq_mul rows.nodup_names (fun p hp => rows.length_of_mem hp) hp] at hlead
  have hunits : (fun x : Nat => [(x : Int)].map fun i => i + ((n * k : Nat) : Int))
      = fun (x : Nat) => [((n * k + x : Nat) : Int)] := by
    funext x
    rw [List.map_cons, List.map_nil, Int.natCast_add, Int.add_comm]
  rwa [hunits] at hlead

/-- The last place of a row, by the name of its point. -/
theorem leadsTo_top (hn : 1 ≤ n) (hp : rows.placed[k]? = some p) (side : Side) {path : String}
    (hpath : Path.read defaultSlot path
      = ⟨p.name, defaultSlot, Circuit.pointName ⟨(n - 1 : Nat), 0, 0⟩⟩) :
    (rows.scope side).LeadsTo path 1 fun _ => [((n * k + (n - 1) : Nat) : Int)] := by
  have hmem := List.mem_of_getElem? hp
  obtain ⟨mode, turn, hrow⟩ := rows.isGateRow_of_mem hmem
  have htop : n - 1 < n := by omega
  have hlead := Assembly.leadsTo_scope (w := 1) (q := n - 1)
    (Assembly.names_circuits.symm ▸ rows.nodup_names) (Assembly.mem_circuits hmem)
    (hrow.findSlot?_eq side) (Circuit.isRow_cubeSlot n _) (Circuit.getSector?_cubeSlot htop _)
    (by omega) hpath
  rw [Assembly.offset_eq_mul rows.nodup_names (fun p hp => rows.length_of_mem hp) hp] at hlead
  obtain ⟨t, q, ht, hframe, hunits⟩ := hlead
  refine ⟨t, q, ht, hframe, fun x hx => ?_⟩
  obtain rfl : x = 0 := by omega
  rw [hunits 0 hx, List.map_cons, List.map_nil, Nat.add_zero, Int.natCast_add, Int.add_comm]

end Paths

section Links

variable (rows : CompactRows n) {k r : Nat} {p q : Placed}

/-- Every place of one row is connected to the same place of another. -/
theorem linkConnections_straight (hp : rows.placed[k]? = some p) (hq : rows.placed[r]? = some q)
    {source target : String} (hsource : Path.read defaultSlot source = ⟨p.name, defaultSlot, ""⟩)
    (htarget : Path.read defaultSlot target = ⟨q.name, defaultSlot, ""⟩) :
    Assembly.linkConnections (rows.scope .output) (rows.scope .input) (.straight source target)
        = .ok (rungs n k r 0 n)
      ∧ Assembly.linkReport (rows.scope .output) (rows.scope .input) (.straight source target)
        = [] := by
  have hout := rows.leadsTo_row hp .output hsource
  have hin := rows.leadsTo_row hq .input htarget
  refine ⟨?_, Assembly.linkReport_eq_nil hout hin _⟩
  rw [Assembly.linkConnections_straight hout hin, Nat.min_self, rungs, List.map_eq_flatMap]
  rfl

/-- Every place of one row is connected to the next place of another. -/
theorem linkConnections_carry (hp : rows.placed[k]? = some p) (hq : rows.placed[r]? = some q)
    {source target : String} (hsource : Path.read defaultSlot source = ⟨p.name, defaultSlot, ""⟩)
    (htarget : Path.read defaultSlot target = ⟨q.name, defaultSlot, ""⟩) :
    Assembly.linkConnections (rows.scope .output) (rows.scope .input) (.carry source target)
        = .ok (rungs n k r 1 (n - 1))
      ∧ Assembly.linkReport (rows.scope .output) (rows.scope .input) (.carry source target)
        = [] := by
  have hout := rows.leadsTo_row hp .output hsource
  have hin := rows.leadsTo_row hq .input htarget
  refine ⟨?_, Assembly.linkReport_eq_nil hout hin _⟩
  rw [Assembly.linkConnections_carry hout hin, rungs, List.map_eq_flatMap]
  rfl

end Links

/-- The links of the compact adder. -/
def links : List Link :=
  [.straight "carry" "res", .straight "carry" "and_3", .straight "carry" "and_1",
    .carry "and_1" "carry", .carry "and_2" "carry", .carry "and_3" "carry"]

/-- The words that are added, and the carry in. -/
def inputs (n : Nat) : List SlotPlan :=
  [.word "a" n ["and_1", "and_2", "res"], .word "b" n ["and_2", "and_3", "res"],
    .bit "carry" ["carry"]]

/-- The sum, and the carry out of the place that is given as a text. -/
def outputs (n : Nat) (top : String) : List SlotPlan :=
  [.word "_" n ["res"],
    .bit "carry" (["and_1", "and_2", "and_3"].map fun name => name ++ "/_/" ++ top ++ "_0_0")]

/-- All connections of the compact adder. -/
def connections (n : Nat) : List (List (Int × Int)) :=
  [rungs n 0 4 0 n, rungs n 0 3 0 n, rungs n 0 1 0 n, rungs n 1 0 1 (n - 1), rungs n 2 0 1 (n - 1),
    rungs n 3 0 1 (n - 1)]

end CompactRows

/-! ### Linking -/

/-- The compact adder as it is compiled: the gates and the senders of each place of each row, and
the slots. -/
structure IsCompact (c : Circuit) (n : Nat) : Prop where
  length_units : c.units.length = n * 5
  part_eq : ∀ k < 5, ∀ x < n, (c.units[n * k + x]?).map (fun e => e.part)
    = (rowGates[k]?).map .gate
  senders_carry : ∀ x < n, (Circuit.senders c.units (n * 0 + x)).Perm
    (if 1 ≤ x then [n * 1 + (x - 1), n * 2 + (x - 1), n * 3 + (x - 1)] else [])
  senders_other : ∀ k < 5, 0 < k → ∀ x < n, (Circuit.senders c.units (n * k + x)).Perm
    (if k = 2 then [] else [n * 0 + x])
  inputs : ∃ first second carry, c.inputs = [first, second, carry]
    ∧ (first.name = "a" ∧ first.IsRow n fun x => [1, 2, 4].map fun k => ((n * k + x : Nat) : Int))
    ∧ (second.name = "b" ∧ second.IsRow n fun x => [2, 3, 4].map fun k => ((n * k + x : Nat) : Int))
    ∧ carry.name = "carry" ∧ carry.IsRow 1 fun x => [((n * 0 + x : Nat) : Int)]
  outputs : ∃ sum carry, c.outputs = [sum, carry]
    ∧ (sum.name = "_" ∧ sum.IsRow n fun x => [((n * 4 + x : Nat) : Int)])
    ∧ carry.name = "carry"
    ∧ carry.IsRow 1 fun _ => [1, 2, 3].map fun k => ((n * k + (n - 1) : Nat) : Int)

namespace CompactRows

variable {n : Nat}

/-- The rows in their order, by their names. -/
def names : List String := ["carry", "and_1", "and_2", "and_3", "res"]

/-- The row of a name. -/
def rowOf (name : String) : Nat := names.idxOf name

/-- The names of the rows are paths to them. -/
theorem exists_row_of_mem (rows : CompactRows n) {path : String} (hpath : path ∈ names) :
    ∃ p, rows.placed[rowOf path]? = some p ∧ p.name = path
      ∧ Path.read defaultSlot path = ⟨p.name, defaultSlot, ""⟩ := by
  simp only [names, List.mem_cons, List.not_mem_nil, or_false] at hpath
  rcases hpath with rfl | rfl | rfl | rfl | rfl
  · exact ⟨_, rfl, rfl, rfl⟩
  · exact ⟨_, rfl, rfl, rfl⟩
  · exact ⟨_, rfl, rfl, rfl⟩
  · exact ⟨_, rfl, rfl, rfl⟩
  · exact ⟨_, rfl, rfl, rfl⟩

/-- A word that is attached to rows. -/
theorem exists_make_rows (rows : CompactRows n) {plan : SlotPlan} {paths : List String}
    (side : Side) {m : Nat} (hm : m ≤ n) (hsize : plan.size = SlotPlan.wordSize m)
    (hentries : plan.entries = paths.map fun path => ⟨.origin, ⟨m, 1, 1⟩, path, .straight⟩)
    (hpaths : ∀ path ∈ paths, path ∈ names) :
    ∃ s, plan.make (rows.scope side) side = .ok (s, []) ∧ s.name = plan.name
      ∧ s.IsRow m fun x => (paths.map rowOf).map fun k => ((n * k + x : Nat) : Int) := by
  let leads : List (String × (Nat → List Int)) :=
    paths.map fun path => (path, fun x => [((n * rowOf path + x : Nat) : Int)])
  have hleads : ∀ lead ∈ leads, ∃ v, m ≤ v ∧ (rows.scope side).LeadsTo lead.1 v lead.2 := by
    intro lead hlead
    obtain ⟨path, hpath, rfl⟩ := List.mem_map.1 hlead
    obtain ⟨p, hp, _, hread⟩ := rows.exists_row_of_mem (hpaths path hpath)
    exact ⟨n, hm, rows.leadsTo_row hp side hread⟩
  obtain ⟨s, hmake, hname, hrow⟩ := SlotPlan.exists_make_word leads hsize
    (by rw [hentries, List.map_map]; rfl) hleads
  refine ⟨s, hmake, hname, hrow.size_eq, fun x hx => ?_⟩
  rw [hrow.get?_eq x hx, List.flatMap_map, List.map_map, List.map_eq_flatMap]
  rfl

/-- A path to the last place of a row. -/
theorem read_top (name : String) (hname : Path.separator ∉ name.toList) (x : Nat) :
    Path.read defaultSlot (name ++ "/_/" ++ toString x ++ "_0_0")
      = ⟨name, defaultSlot, Circuit.pointName ⟨x, 0, 0⟩⟩ := by
  have htext : name ++ "/_/" ++ toString x ++ "_0_0"
      = (⟨name, defaultSlot, Circuit.pointName ⟨x, 0, 0⟩⟩ : Path).text := by
    rw [Circuit.pointName_row]
    apply String.toList_inj.1
    simp [Path.text, Path.separator, defaultSlot]
  have hslot : Path.separator ∉ defaultSlot.toList := by decide
  have hne : defaultSlot ≠ "" := by decide
  rw [htext]
  exact Path.read_text hname hslot hne

/-- The slot of the carry out. -/
theorem exists_make_top (rows : CompactRows n) (hn : 1 ≤ n) :
    ∃ s, (SlotPlan.bit "carry" (["and_1", "and_2", "and_3"].map fun name =>
        name ++ "/_/" ++ toString (n - 1) ++ "_0_0")).make (rows.scope .output) .output
          = .ok (s, [])
      ∧ s.name = "carry"
      ∧ s.IsRow 1 fun _ => [1, 2, 3].map fun k => ((n * k + (n - 1) : Nat) : Int) := by
  let leads : List (String × (Nat → List Int)) := ["and_1", "and_2", "and_3"].map fun name =>
    (name ++ "/_/" ++ toString (n - 1) ++ "_0_0",
      fun _ => [((n * rowOf name + (n - 1) : Nat) : Int)])
  have hnames : ∀ name ∈ ["and_1", "and_2", "and_3"], name ∈ names ∧
      Path.separator ∉ name.toList := by decide
  have hleads : ∀ lead ∈ leads, ∃ v, 1 ≤ v ∧ (rows.scope .output).LeadsTo lead.1 v lead.2 := by
    intro lead hlead
    obtain ⟨name, hmem, rfl⟩ := List.mem_map.1 hlead
    obtain ⟨hname, hseparator⟩ := hnames name hmem
    obtain ⟨p, hp, rfl, _⟩ := rows.exists_row_of_mem hname
    exact ⟨1, Nat.le_refl 1, rows.leadsTo_top hn hp .output (read_top p.name hseparator (n - 1))⟩
  exact SlotPlan.exists_make_word (n := 1) leads rfl rfl hleads

/-- The connections that the links draw. -/
theorem forall₂_drawn (rows : CompactRows n) :
    List.Forall₂ (fun link drawn =>
      Assembly.linkConnections (rows.scope .output) (rows.scope .input) link = .ok drawn
        ∧ Assembly.linkReport (rows.scope .output) (rows.scope .input) link = [])
      links (connections n) := by
  have hcarry : rows.placed[0]? = some ⟨"carry", rows.carry, ⟨1, 0, 1⟩, laid⟩ := rfl
  have hand₁ : rows.placed[1]? = some ⟨"and_1", rows.and, ⟨0, 0, 0⟩, laid⟩ := rfl
  have hand₂ : rows.placed[2]? = some ⟨"and_2", rows.and, ⟨0, 0, 1⟩, laid⟩ := rfl
  have hand₃ : rows.placed[3]? = some ⟨"and_3", rows.and, ⟨1, 0, 0⟩, laid⟩ := rfl
  have hres : rows.placed[4]? = some ⟨"res", rows.res, ⟨2, 0, 0⟩, laid⟩ := rfl
  refine .cons ?_ <| .cons ?_ <| .cons ?_ <| .cons ?_ <| .cons ?_ <| .cons ?_ .nil
  · exact rows.linkConnections_straight hcarry hres rfl rfl
  · exact rows.linkConnections_straight hcarry hand₃ rfl rfl
  · exact rows.linkConnections_straight hcarry hand₁ rfl rfl
  · exact rows.linkConnections_carry hand₁ hcarry rfl rfl
  · exact rows.linkConnections_carry hand₂ hcarry rfl rfl
  · exact rows.linkConnections_carry hand₃ hcarry rfl rfl

/-- A place sends to at most three others. -/
theorem length_receivers_connections (i : Nat) :
    (Assembly.receivers (connections n).flatten (i : Int)).length ≤ 3 := by
  simp only [connections, rungs_eq_lane, List.flatten_cons, List.flatten_nil, List.append_nil,
    Assembly.receivers_append, List.length_append]
  -- a place of the carries is in the first three lists, and any other in one of the last three
  have hres := length_receivers_lane (n * 0) (n * 4 + 0) n i
  have hand₃ := length_receivers_lane (n * 0) (n * 3 + 0) n i
  have hand₁ := length_receivers_lane (n * 0) (n * 1 + 0) n i
  have hcarry₁ := length_receivers_lane (n * 1) (n * 0 + 1) (n - 1) i
  have hcarry₂ := length_receivers_lane (n * 2) (n * 0 + 1) (n - 1) i
  have hcarry₃ := length_receivers_lane (n * 3) (n * 0 + 1) (n - 1) i
  omega

/-- No gate sends to more than three others. -/
theorem length_wires_le (rows : CompactRows n) :
    ∀ e ∈ Assembly.linked rows.placed (connections n), e.wires.length ≤ 3 := by
  refine Assembly.length_wires_le 3 rows.nodup_names fun p hp i e he => ?_
  -- gates of a row have no receivers of their own
  obtain ⟨mode, turn, hrow⟩ := rows.isGateRow_of_mem hp
  rw [hrow.isGates.wires e (List.mem_of_getElem? he), List.length_nil, Nat.zero_add]
  exact length_receivers_connections _

/-- The design fits: all paths lead somewhere, and no gate sends to many others. -/
theorem exists_fits (rows : CompactRows n) (hn : 1 ≤ n) (hword : n < 2 ^ 60) :
    ∃ first second carry sum out, Assembly.Fits .standard rows.placed links (inputs n)
        (outputs n (toString (n - 1))) (connections n) [first, second, carry] [sum, out]
      ∧ (first.name = "a" ∧ first.IsRow n fun x => [1, 2, 4].map fun k => ((n * k + x : Nat) : Int))
      ∧ (second.name = "b" ∧ second.IsRow n fun x =>
          [2, 3, 4].map fun k => ((n * k + x : Nat) : Int))
      ∧ (carry.name = "carry" ∧ carry.IsRow 1 fun x => [((n * 0 + x : Nat) : Int)])
      ∧ (sum.name = "_" ∧ sum.IsRow n fun x => [((n * 4 + x : Nat) : Int)])
      ∧ out.name = "carry"
      ∧ out.IsRow 1 fun _ => [1, 2, 3].map fun k => ((n * k + (n - 1) : Nat) : Int) := by
  obtain ⟨first, hfirst, hfirstName, hfirstRow⟩ :=
    @exists_make_rows n rows (.word "a" n ["and_1", "and_2", "res"]) ["and_1", "and_2", "res"]
      .input n (by omega) rfl rfl (by decide)
  obtain ⟨second, hsecond, hsecondName, hsecondRow⟩ :=
    @exists_make_rows n rows (.word "b" n ["and_2", "and_3", "res"]) ["and_2", "and_3", "res"]
      .input n (by omega) rfl rfl (by decide)
  obtain ⟨carry, hcarry, hcarryName, hcarryRow⟩ :=
    @exists_make_rows n rows (.bit "carry" ["carry"]) ["carry"] .input 1 hn rfl rfl (by decide)
  obtain ⟨sum, hsum, hsumName, hsumRow⟩ :=
    @exists_make_rows n rows (.word "_" n ["res"]) ["res"] .output n (by omega) rfl rfl (by decide)
  obtain ⟨out, hout, houtName, houtRow⟩ := rows.exists_make_top hn
  refine ⟨first, second, carry, sum, out, ?_, ⟨hfirstName, hfirstRow⟩, ⟨hsecondName, hsecondRow⟩,
    ⟨hcarryName, hcarryRow⟩, ⟨hsumName, hsumRow⟩, houtName, houtRow⟩
  exact {
    names := rows.nodup_names
    embeddable := fun p hp => by
      obtain ⟨mode, turn, hrow⟩ := rows.isGateRow_of_mem hp
      exact hrow.embeddable hword
    drawn := rows.forall₂_drawn
    fanOut := fun e he => by
      have hle := rows.length_wires_le e he
      simp only [CompileConfig.standard]
      omega
    inputNames := by
      show List.Nodup ["a", "b", "carry"]
      decide
    outputNames := by
      show List.Nodup ["_", "carry"]
      decide
    made := .cons hfirst (.cons hsecond (.cons hcarry .nil))
    shown := .cons hsum (.cons hout .nil) }

/-- Who sends to a place of a row: the gate for the carry to those of its place, and the three gates
that carry to it. -/
theorem sendersAmong_connections {k x : Nat} (hx : x < n) :
    Circuit.sendersAmong (connections n).flatten (n * k + x)
      = (if k = 4 then [n * 0 + x] else []) ++ ((if k = 3 then [n * 0 + x] else [])
        ++ ((if k = 1 then [n * 0 + x] else []) ++ if k = 0 ∧ 1 ≤ x then
          [n * 1 + (x - 1), n * 2 + (x - 1), n * 3 + (x - 1)] else [])) := by
  have hstraight (r : Nat) : Circuit.sendersAmong (rungs n 0 r 0 n) (n * k + x)
      = if k = r then [n * 0 + x] else [] := by
    rw [sendersAmong_rungs (Nat.le_refl n) hx]
    simp [hx]
  have hcarry (j : Nat) : Circuit.sendersAmong (rungs n j 0 1 (n - 1)) (n * k + x)
      = if k = 0 ∧ 1 ≤ x then [n * j + (x - 1)] else [] := by
    have hlast : n - 1 + 1 = n := by omega
    rw [sendersAmong_rungs (Nat.le_of_eq hlast) hx, hlast]
    simp [hx]
  simp only [connections, List.flatten_cons, List.flatten_nil, Circuit.sendersAmong_append,
    hstraight, hcarry]
  congr 3
  split <;> rfl

end CompactRows

/-- The rows are made, and the compact adder is what is made of them. -/
theorem exists_rows {n : Nat} (hword : n < 2 ^ 60) :
    ∃ rows : CompactRows n, ∀ config top, adderCompact config n top =
      (Assembly.ofPlaced config rows.placed CompactRows.links (CompactRows.inputs n)
        (CompactRows.outputs n top)).linkFor "adder_compact" := by
  obtain ⟨carry, hcarry, isCarry⟩ := exists_row hword .or .identity
  obtain ⟨and, hand, isAnd⟩ := exists_row hword .and .identity
  obtain ⟨res, hres, isRes⟩ := exists_row hword .xor (.facing .negY)
  refine ⟨⟨carry, and, res, isCarry, isAnd, isRes⟩, fun config top => ?_⟩
  rw [adderCompact, hcarry, Fault.ok_bind, hand, Fault.ok_bind, hres, Fault.ok_bind]
  rfl

/-- The compact adder is compiled if its rows are not too long, with nothing to report. -/
theorem exists_compact {n : Nat} (hn : 1 ≤ n) (hword : n < 2 ^ 60) :
    ∃ c, adderCompact .standard n (toString (n - 1)) = .ok (c, []) ∧ IsCompact c n := by
  obtain ⟨rows, hmade⟩ := exists_rows hword
  obtain ⟨first, second, carryIn, sum, carryOut, hfits, hfirst, hsecond, hcarryIn, hsum,
    hcarryOut⟩ := rows.exists_fits hn hword
  obtain ⟨c, hlink, hunits, hinputs, houtputs⟩ := hfits.exists_linkFor "adder_compact"
  have hlength : ∀ p ∈ rows.placed, p.circuit.units.length = n := fun p hp => rows.length_of_mem hp
  have hplaced : ∀ k (hk : k < 5), rows.placed[k]? = some (rows.placed.get ⟨k, hk⟩) :=
    fun _ hk => List.getElem?_eq_getElem hk
  have hsenders : ∀ k < 5, ∀ x < n, (Circuit.senders c.units (n * k + x)).Perm
      (Circuit.sendersAmong (CompactRows.connections n).flatten (n * k + x)) := by
    intro k hk x hx
    obtain ⟨mode, turn, _, hrow⟩ := rows.exists_isGateRow (hplaced k hk)
    have hblock := hfits.senders_block hlength (hplaced k hk) hx
    rwa [hrow.senders_eq_nil, List.map_nil, List.nil_append, ← hunits] at hblock
  refine ⟨c, (hmade _ _).trans hlink, ?_, ?_, ?_, ?_,
    ⟨first, second, carryIn, hinputs, hfirst, hsecond, hcarryIn⟩,
    ⟨sum, carryOut, houtputs, hsum, hcarryOut⟩⟩
  · rw [hunits, Assembly.Fits.length_linked, Assembly.unitCount_eq_mul hlength]
    rfl
  · intro k hk x hx
    obtain ⟨mode, turn, hmode, hrow⟩ := rows.exists_isGateRow (hplaced k hk)
    rw [hunits, hfits.part_block hlength (hplaced k hk) hx, hrow.part_eq hx, hmode]
    rfl
  · intro x hx
    have hcarry := hsenders 0 (by decide) x hx
    rw [CompactRows.sendersAmong_connections hx] at hcarry
    simpa using hcarry
  · intro k hk hpos x hx
    have hother := hsenders k hk x hx
    rw [CompactRows.sendersAmong_connections hx] at hother
    obtain rfl | rfl | rfl | rfl : k = 1 ∨ k = 2 ∨ k = 3 ∨ k = 4 := by omega
    all_goals exact hother

/-- The compact adder is not compiled if its rows are too long. -/
theorem adderCompact_eq_error {n : Nat} (hword : 2 ^ 60 ≤ n) (config : CompileConfig)
    (top : String) : adderCompact config n top = .error (SlotPlan.rowFault n) := by
  rw [adderCompact, row_eq_error hword]
  rfl

/-! ### The final states -/

section States

variable {n : Nat}

/-- The final state of place `i` of row `k`: the carry, the gates that carry out, and the bit of the
sum. -/
def compactState (x y : BitVec n) (c : Bool) (k i : Nat) : Bool :=
  let a := x.getLsbD i
  let b := y.getLsbD i
  let carry := BitVec.carry i x y c
  match k with
  | 0 => carry
  | 1 => a && carry
  | 2 => a && b
  | 3 => b && carry
  | _ => a ^^ (b ^^ carry)

/-- The rank of place `i` of row `k`: every carry comes after the gates that carry to it. -/
def compactRank (k i : Nat) : Nat :=
  match k with
  | 0 => 2 * i
  | _ => 2 * i + 1

/-- The words that drive the adder. -/
def addendsWithCarry (x y : BitVec n) (c : Bool) : Keyed Nat :=
  [("a", x.toNat), ("b", y.toNat), ("carry", c.toNat)]

namespace IsCompact

variable {c : Circuit} {k i : Nat}

/-- What drives the places: the bits of the words, and the carry in. -/
theorem driven_eq (h : IsCompact c n) (x y : BitVec n) (b : Bool) (hi : i < n) :
    c.driven (addendsWithCarry x y b) (n * k + i)
      = (if k ∈ [1, 2, 4] then [x.getLsbD i] else [])
        ++ ((if k ∈ [2, 3, 4] then [y.getLsbD i] else [])
          ++ if k = 0 ∧ i = 0 then [b] else []) := by
  obtain ⟨first, second, carry, hinputs, ⟨ha, hfirst⟩, ⟨hb, hsecond⟩, hc, hcarry⟩ := h.inputs
  have hwordA : Keyed.find? first.name (addendsWithCarry x y b) = some x.toNat := by rw [ha]; rfl
  have hwordB : Keyed.find? second.name (addendsWithCarry x y b) = some y.toNat := by rw [hb]; rfl
  have hwordC : Keyed.find? carry.name (addendsWithCarry x y b) = some b.toNat := by rw [hc]; rfl
  have hcarryRow : carry.IsRow 1 fun x => [0].map fun k => ((n * k + x : Nat) : Int) := hcarry
  simp only [Circuit.driven, hinputs, List.flatMap_cons, List.flatMap_nil, hwordA, hwordB, hwordC,
    List.append_nil]
  rw [driven_rows hfirst (by decide) (Nat.le_refl n) hi,
    driven_rows hsecond (by decide) (Nat.le_refl n) hi,
    driven_rows hcarryRow (by decide) (by omega) hi]
  -- only the lowest place is driven by the carry in
  have hlowest : (if i < 1 ∧ k ∈ [0] then [b.toNat.testBit i] else [])
      = if k = 0 ∧ i = 0 then [b] else [] := by
    by_cases hk : k = 0 ∧ i = 0
    · obtain ⟨rfl, rfl⟩ := hk
      cases b <;> rfl
    · rw [if_neg hk, if_neg]
      rw [List.mem_singleton]
      omega
  rw [hlowest]
  simp only [hi, true_and]
  rfl

/-- The lowest carry is the carry in, and every other one comes from the place before it. -/
theorem follows_carry (h : IsCompact c n) (x y : BitVec n) (b : Bool) (hi : i < n) :
    c.Follows (addendsWithCarry x y b) (Circuit.blockwise n compactRank)
      (Circuit.blockwise n (compactState x y b)) (n * 0 + i) := by
  have hpart := h.part_eq 0 (by decide) i hi
  have hsenders := h.senders_carry i hi
  have hdriven := @driven_eq n c 0 i h x y b hi
  have hstate (r : Nat) {j : Nat} (hj : j < n) := Circuit.blockwise_eq (compactState x y b) r hj
  have hrank (r : Nat) {j : Nat} (hj : j < n) := Circuit.blockwise_eq compactRank r hj
  cases i with
  | zero =>
      refine ⟨.or, [], hpart, hsenders, fun j hj => absurd hj List.not_mem_nil, ?_⟩
      rw [hdriven, hstate 0 hi]
      show GateMode.output .or (([b] : List Bool) : Multiset Bool) = BitVec.carry 0 x y b
      rw [GateMode.output_or_singleton, BitVec.carry_zero]
  | succ i =>
      have hprev : i < n := by omega
      refine ⟨.or, [n * 1 + i, n * 2 + i, n * 3 + i], hpart, hsenders, ?_, ?_⟩
      · intro j hj
        simp only [List.mem_cons, List.not_mem_nil, or_false] at hj
        rcases hj with rfl | rfl | rfl <;>
          (rw [hrank _ hprev, hrank _ hi]; simp only [compactRank]; omega)
      · rw [hdriven]
        simp only [List.map_cons, List.map_nil, hstate _ hprev, hstate _ hi]
        show GateMode.output .or (([_, _, _] : List Bool) : Multiset Bool)
          = BitVec.carry (i + 1) x y b
        rw [GateMode.output_or_triple]
        exact carry_succ_or x y b i

/-- All other gates are sent to by the carry of their place, if by any. -/
theorem follows_other (h : IsCompact c n) (x y : BitVec n) (b : Bool) (hk : k < 5) (hpos : 0 < k)
    (hi : i < n) :
    c.Follows (addendsWithCarry x y b) (Circuit.blockwise n compactRank)
      (Circuit.blockwise n (compactState x y b)) (n * k + i) := by
  have hstate (r : Nat) := Circuit.blockwise_eq (compactState x y b) r hi
  have hrank (r : Nat) := Circuit.blockwise_eq compactRank r hi
  have hsent : (if k = 2 then [] else [n * 0 + i]).map (Circuit.blockwise n (compactState x y b))
      = if k = 2 then [] else [BitVec.carry i x y b] := by
    split
    · rfl
    · rw [List.map_cons, List.map_nil, hstate 0]
      rfl
  have hgate : ∃ mode, rowGates[k]? = some mode ∧ mode.output
      (((if k = 2 then [] else [n * 0 + i]).map (Circuit.blockwise n (compactState x y b))
        ++ c.driven (addendsWithCarry x y b) (n * k + i) : List Bool) : Multiset Bool)
          = compactState x y b k i := by
    rw [hsent, h.driven_eq x y b hi]
    obtain rfl | rfl | rfl | rfl : k = 1 ∨ k = 2 ∨ k = 3 ∨ k = 4 := by omega
    · refine ⟨.and, rfl, (GateMode.output_and_pair (BitVec.carry i x y b) (x.getLsbD i)).trans ?_⟩
      exact Bool.and_comm _ _
    · exact ⟨.and, rfl, GateMode.output_and_pair (x.getLsbD i) (y.getLsbD i)⟩
    · refine ⟨.and, rfl, (GateMode.output_and_pair (BitVec.carry i x y b) (y.getLsbD i)).trans ?_⟩
      exact Bool.and_comm _ _
    · refine ⟨.xor, rfl, (GateMode.output_xor_triple (BitVec.carry i x y b) (x.getLsbD i)
        (y.getLsbD i)).trans ?_⟩
      rw [Bool.xor_comm, Bool.xor_assoc]
      rfl
  obtain ⟨mode, hmode, houtput⟩ := hgate
  refine ⟨mode, _, ?_, h.senders_other k hk hpos i hi, ?_, ?_⟩
  · rw [h.part_eq k hk i hi, hmode]
    rfl
  · intro j hj
    obtain ⟨l, rfl⟩ : ∃ l, k = l + 1 := ⟨k - 1, by omega⟩
    split at hj
    · cases hj
    · rw [List.mem_singleton] at hj
      rw [hj, hrank 0, hrank (l + 1)]
      simp only [compactRank]
      omega
  · rw [houtput, hstate k]

/-- Every gate of the compact adder follows the final states. -/
theorem follows (h : IsCompact c n) (x y : BitVec n) (b : Bool) (hk : k < 5) (hi : i < n) :
    c.Follows (addendsWithCarry x y b) (Circuit.blockwise n compactRank)
      (Circuit.blockwise n (compactState x y b)) (n * k + i) := by
  rcases Nat.eq_zero_or_pos k with rfl | hpos
  · exact h.follows_carry x y b hi
  · exact h.follows_other x y b hk hpos hi

/-- The adder settles after two ticks for each bit, and then shows the sum and the carry out. -/
theorem settles (h : IsCompact c n) (hn : 1 ≤ n) (x y : BitVec n) (b : Bool) :
    c.SettledAt (addendsWithCarry x y b) (2 * n)
      ∧ c.numbers (c.states (addendsWithCarry x y b) (2 * n))
        = [("_", (x + y + BitVec.setWidth n (BitVec.ofBool b)).toNat),
          ("carry", (BitVec.carry n x y b).toNat)] := by
  have hrank : ∀ k < 5, ∀ i < n, compactRank k i < 2 * n := by
    intro k _ i hi
    rw [compactRank.eq_def]
    split <;> omega
  obtain ⟨hsettled, hstate⟩ := Circuit.settledAt_of_blocks h.length_units
    (fun k hk i hi => h.follows x y b hk hi) hrank
  refine ⟨hsettled, ?_⟩
  obtain ⟨sum, carry, houtputs, ⟨hname, hsum⟩, hcarryName, hcarry⟩ := h.outputs
  have hsumBits : ∀ z < n, ([((n * 4 + z : Nat) : Int)].any fun i =>
      c.states (addendsWithCarry x y b) (2 * n) i.toNat)
        = (x + y + BitVec.setWidth n (BitVec.ofBool b)).toNat.testBit z := by
    intro z hz
    simp only [List.any_cons, List.any_nil, Bool.or_false, Int.toNat_natCast,
      hstate 4 (by decide) z hz, compactState]
    exact (BitVec.getLsbD_add_add_bool hz x y b).symm
  -- the carry out is the carry into the place behind the last one
  have hcarryBit : ∀ z < 1, (([1, 2, 3].map fun k => ((n * k + (n - 1) : Nat) : Int)).any fun i =>
      c.states (addendsWithCarry x y b) (2 * n) i.toNat)
        = (BitVec.carry n x y b).toNat.testBit z := by
    intro z hz
    obtain rfl : z = 0 := by omega
    obtain ⟨m, rfl⟩ : ∃ m, n = m + 1 := ⟨n - 1, by omega⟩
    have htop : m < m + 1 := Nat.lt_succ_self m
    simp only [List.map_cons, List.map_nil, List.any_cons, List.any_nil, Bool.or_false,
      Int.toNat_natCast, Nat.add_sub_cancel, hstate _ (by decide : 1 < 5) m htop,
      hstate _ (by decide : 2 < 5) m htop, hstate _ (by decide : 3 < 5) m htop,
      ← carry_succ_or x y b m, ← Bool.or_assoc, compactState]
    generalize (_ || _) = out
    cases out <;> rfl
  rw [Circuit.numbers, houtputs, List.map_cons, List.map_cons, List.map_nil, hname, hcarryName,
    hsum.number_eq hsumBits, hcarry.number_eq hcarryBit, Nat.mod_eq_of_lt (BitVec.isLt _),
    Nat.pow_one, Nat.mod_eq_of_lt (Bool.toNat_lt _)]

end IsCompact

end States

/-! ### The preset -/

/-- The preset passes on the width and the number of the highest place. -/
theorem make_adderCompact {n : Nat} (hn : 1 ≤ n) (config : CompileConfig) :
    Preset.adderCompact.make [("word_size", .int n)] config
      = adderCompact config n (toString (n - 1)) := by
  have hpred : (n : Int) - 1 = ((n - 1 : Nat) : Int) := by omega
  have htop : Preset.predecessor (.int n) = toString (n - 1) := by
    rw [Preset.predecessor, hpred]
    rfl
  rw [← htop]
  show (Preset.checkWordSize (.int n) >>= fun _ => Preset.truncatedBits (.int n) >>= fun bits =>
    adderCompact config bits (Preset.predecessor (.int n))) = _
  rw [Preset.checkWordSize_eq_ok hn, Fault.ok_bind, Preset.truncatedBits_int, Fault.ok_bind]

section Words

variable {n : Nat} (x y : BitVec n) (c : Bool)

/-- The sum of two words and a carry, as a number. -/
theorem toNat_add_add_bool :
    (x + y + BitVec.setWidth n (BitVec.ofBool c)).toNat
      = (x.toNat + y.toNat + c.toNat) % 2 ^ n := by
  rw [BitVec.toNat_add, BitVec.toNat_add, BitVec.toNat_setWidth, BitVec.toNat_ofBool,
    Nat.mod_add_mod, Nat.add_mod_mod]

/-- The carry out of the highest place, as a number. -/
theorem toNat_carry_width :
    (BitVec.carry n x y c).toNat = (x.toNat + y.toNat + c.toNat) >>> n := by
  have hx := x.isLt
  have hy := y.isLt
  have hc := c.toNat_le
  rw [BitVec.carry_width, Nat.shiftRight_eq_div_pow]
  by_cases h : 2 ^ n ≤ x.toNat + y.toNat + c.toNat
  · rw [decide_eq_true h, Nat.div_eq_of_lt_le (k := 1) (by omega) (by omega)]
    rfl
  · rw [decide_eq_false h, Nat.div_eq_of_lt (by omega)]
    rfl

end Words

/-- **The compact adder adds, with carry in and carry out, for every width of fewer than `2 ^ 60`
bits**: it is compiled with nothing to report, and whatever words and carry drive its inputs, it
settles and shows their sum and its carry.  For a greater width there can be no array over a row. -/
theorem adderCompact_adds (n : Nat) (hn : 1 ≤ n) :
    (n < 2 ^ 60 → ∃ c, Preset.adderCompact.make [("word_size", .int n)] .standard = .ok (c, [])
      ∧ c.units.length = 5 * n
      ∧ ∀ a b carry, a < 2 ^ n → b < 2 ^ n → carry < 2 →
        ∃ t, c.SettledAt [("a", a), ("b", b), ("carry", carry)] t
          ∧ c.numbers (c.states [("a", a), ("b", b), ("carry", carry)] t)
            = [("_", (a + b + carry) % 2 ^ n), ("carry", (a + b + carry) >>> n)])
    ∧ (2 ^ 60 ≤ n → Preset.adderCompact.make [("word_size", .int n)] .standard
      = .error (SlotPlan.rowFault n)) := by
  rw [make_adderCompact hn .standard]
  refine ⟨fun hword => ?_, fun hword => adderCompact_eq_error hword _ _⟩
  obtain ⟨c, hmade, h⟩ := exists_compact hn hword
  refine ⟨c, hmade, h.length_units.trans (Nat.mul_comm n 5), fun a b carry ha hb hcarry => ?_⟩
  obtain ⟨bit, rfl⟩ : ∃ bit : Bool, carry = bit.toNat := by
    rcases Nat.lt_succ_iff_lt_or_eq.1 hcarry with hzero | rfl
    · exact ⟨false, Nat.lt_one_iff.1 hzero⟩
    · exact ⟨true, rfl⟩
  obtain ⟨hsettled, hnumbers⟩ := h.settles hn (BitVec.ofNatLT a ha) (BitVec.ofNatLT b hb) bit
  rw [toNat_add_add_bool, toNat_carry_width, BitVec.toNat_ofNatLT, BitVec.toNat_ofNatLT] at hnumbers
  exact ⟨2 * n, hsettled, hnumbers⟩

/-- A sum of two words of four bits and a carry, with the carry out; and a width that is too
great. -/
theorem adderCompact_adds_nibbles :
    (∃ c, Preset.adderCompact.make [("word_size", .int 4)] .standard = .ok (c, [])
      ∧ c.units.length = 20
      ∧ ∃ t, c.SettledAt [("a", 7), ("b", 9), ("carry", 1)] t
        ∧ c.numbers (c.states [("a", 7), ("b", 9), ("carry", 1)] t) = [("_", 1), ("carry", 1)])
    ∧ Preset.adderCompact.make [("word_size", .int (2 ^ 60 : Nat))] .standard
      = .error .boxTooLarge := by
  obtain ⟨c, hmade, hlength, hadds⟩ := (adderCompact_adds 4 (by decide)).1 (by decide)
  have hfault : SlotPlan.rowFault (2 ^ 60) = .boxTooLarge := if_pos (by decide)
  exact ⟨⟨c, hmade, hlength, hadds 7 9 1 (by decide) (by decide) (by decide)⟩,
    hfault ▸ (adderCompact_adds (2 ^ 60) (by decide)).2 (by decide)⟩

/-- Not every width is compiled with nothing to report: with `2 ^ 60` bits there can be no array
over a row, and for the width `1.0` the carry out is sought at the place `0.0`. -/
theorem not_adderCompact_every_width :
    (∀ c, Preset.adderCompact.make [("word_size", .int (2 ^ 60 : Nat))] .standard ≠ .ok (c, []))
      ∧ ∀ c, Preset.adderCompact.make [("word_size", .float ⟨0x3FF0000000000000⟩)] .standard
        ≠ .ok (c, []) := by
  constructor
  · intro c h
    rw [make_adderCompact (by decide), adderCompact_eq_error (Nat.le_refl _)] at h
    cases h
  · intro c h
    have hreported : ((Preset.adderCompact.make [("word_size", .float ⟨0x3FF0000000000000⟩)]
        .standard).toOption.map fun made => made.2.length) = some 4 := by
      decide +kernel
    rw [h] at hreported
    cases hreported

end Arithmetic

end Breadboard
