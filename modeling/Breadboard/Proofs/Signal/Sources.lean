import Breadboard.Proofs.Assembly.Designs
import Breadboard.Proofs.Signal.Network
import Mathlib.Data.List.Count

/-!
**Who sends to a unit of a design.**

The connections of a design are listed by their senders, but what a unit does is decided by those
who send to it.  Up to their order, these are the units of its own circuit that send to it there,
and behind them the senders of all drawn connections that lead to it.

Main definitions:

* `Circuit.sendersAmong` — the senders of given connections that lead to a unit.

Main results:

* `Circuit.count_senders` — a unit sends to another as often as it lists it;
* `Circuit.senders_attach` — the senders after connections are drawn;
* `Assembly.senders_laidOut` — the senders before;
* `Assembly.Fits.senders_linked` — **the senders of a unit of a design**.
-/

set_option autoImplicit false
set_option relaxedAutoImplicit false

namespace Breadboard

namespace Circuit

/-! ### Counting senders -/

/-- The senders of given connections that lead to a unit. -/
def sendersAmong (connections : List (Int × Int)) (unit : Nat) : List Nat :=
  (connections.filter fun c => c.2 == (unit : Int)).map fun c => c.1.toNat

@[simp] theorem sendersAmong_nil (unit : Nat) : sendersAmong [] unit = [] := rfl

theorem sendersAmong_append (first second : List (Int × Int)) (unit : Nat) :
    sendersAmong (first ++ second) unit = sendersAmong first unit ++ sendersAmong second unit := by
  simp [sendersAmong]

theorem sendersAmong_flatMap {α : Type} (l : List α) (f : α → List (Int × Int)) (unit : Nat) :
    sendersAmong (l.flatMap f) unit = l.flatMap fun a => sendersAmong (f a) unit := by
  simp [sendersAmong, List.filter_flatMap, List.map_flatMap]

theorem sendersAmong_singleton (i k j : Nat) :
    sendersAmong [((i : Int), (k : Int))] j = if k = j then [i] else [] := by
  by_cases h : k = j
  · simp [sendersAmong, h]
  · have hne : (k : Int) ≠ (j : Int) := by omega
    simp [sendersAmong, h, hne]

/-- A unit sends to another as often as it lists it. -/
theorem count_senders (units : List Element) (i j : Nat) :
    (senders units j).count i = ((units[i]?).map fun e => e.wires.count (j : Int)).getD 0 := by
  have hcount : ∀ k, ((units.zipIdx k).flatMap fun u =>
      List.replicate (u.1.wires.count (j : Int)) u.2).count i
        = if k ≤ i then ((units[i - k]?).map fun e => e.wires.count (j : Int)).getD 0 else 0 := by
    induction units with
    | nil => simp
    | cons e rest ih =>
        intro k
        rw [List.zipIdx_cons, List.flatMap_cons, List.count_append, ih (k + 1),
          List.count_replicate]
        rcases Nat.lt_trichotomy i k with h | rfl | h
        · simp only [beq_iff_eq]
          rw [if_neg (by omega), if_neg (by omega), if_neg (by omega)]
        · simp
        · have hsucc : i - k = i - (k + 1) + 1 := by omega
          simp only [beq_iff_eq]
          rw [if_neg (by omega), if_pos (by omega), if_pos (by omega), hsucc,
            List.getElem?_cons_succ, Nat.zero_add]
  have h0 := hcount 0
  rwa [if_pos (Nat.zero_le i), Nat.sub_zero] at h0

/-- A unit sends over given connections to another as often as they hold the pair of both. -/
theorem count_sendersAmong {connections : List (Int × Int)} (h : ∀ c ∈ connections, 0 ≤ c.1)
    (i j : Nat) :
    (sendersAmong connections j).count i
      = (Assembly.receivers connections (i : Int)).count (j : Int) := by
  induction connections with
  | nil => rfl
  | cons c rest ih =>
      have hrest := ih fun d hd => h d (List.mem_cons_of_mem c hd)
      have hsender : c.1.toNat = i ↔ c.1 = i := by
        have h0 := h c List.mem_cons_self
        omega
      rw [sendersAmong, Assembly.receivers] at hrest ⊢
      by_cases hi : c.1 = i <;> by_cases hj : c.2 = j <;>
        simp [hi, hj, hsender, hrest]

/-- The senders after connections are drawn. -/
theorem senders_attach {connections : List (Int × Int)} {units : List Element}
    (h : ∀ c ∈ connections, 0 ≤ c.1 ∧ c.1 < units.length) (j : Nat) :
    (senders (Assembly.attach connections units) j).Perm
      (senders units j ++ sendersAmong connections j) := by
  refine List.perm_iff_count.2 fun i => ?_
  rw [List.count_append, count_senders, count_senders,
    count_sendersAmong fun c hc => (h c hc).1, Assembly.getElem?_attach]
  cases hi : units[i]? with
  | some e => simp
  | none =>
      -- no connection begins behind the last unit
      have hnone : Assembly.receivers connections (i : Int) = [] := by
        rw [List.getElem?_eq_none_iff] at hi
        rw [Assembly.receivers, List.map_eq_nil_iff, List.filter_eq_nil_iff]
        intro c hc
        have hlt := (h c hc).2
        simp only [beq_iff_eq]
        omega
      simp [hnone]

end Circuit

namespace Assembly

/-! ### Senders inside a design -/

/-- Before connections are drawn, the units of a circuit send to each other as they do in it. -/
theorem senders_laidOut {schemes : Keyed Circuit} (places : Keyed (Point × Turn))
    (hnames : (Keyed.names schemes).Nodup) (hwires : ∀ s ∈ schemes, s.2.WiresInRange)
    {name : String} {c : Circuit} (hmem : (name, c) ∈ schemes) {i : Nat}
    (hi : i < c.units.length) :
    (Circuit.senders (laidOut schemes places) (offset schemes name + i)).Perm
      ((Circuit.senders c.units i).map fun k => offset schemes name + k) := by
  have hlength : ∀ s ∈ schemes, (seated places (offset schemes s.1) s).length = s.2.units.length :=
    fun s _ => length_seated places _ s
  have hlt : ∀ k ∈ Circuit.senders c.units i, k < c.units.length := by
    intro k hk
    obtain ⟨e, he, _⟩ := Circuit.mem_senders.1 hk
    exact (List.getElem?_eq_some_iff.1 he).1
  -- count the wires from every unit `p`, which stands in the block of some circuit
  refine List.perm_iff_count.2 fun p => ?_
  rw [Circuit.count_senders]
  rcases Nat.lt_or_ge p (unitCount schemes) with hp | hp
  · obtain ⟨other, d, k, hother, hk, rfl⟩ := exists_eq_offset_add hnames hp
    rw [laidOut, getElem?_flatMap_offset hlength hnames hother hk, seated, List.getElem?_map,
      List.getElem?_eq_getElem hk]
    simp only [Option.map_some, Option.getD_some, Circuit.relocated, Device.shiftWires]
    by_cases hself : other = name
    · -- a unit of the same circuit
      subst hself
      obtain rfl : c = d := congrArg Prod.snd (List.inj_on_of_nodup_map hnames hmem hother rfl)
      have hsum : ((offset schemes other + i : Nat) : Int) = (i : Int) + offset schemes other := by
        omega
      rw [hsum, List.count_map_of_injective _ (fun w : Int => w + (offset schemes other : Int))
          (fun a b h => (Int.add_left_inj _).1 h),
        List.count_map_of_injective _ (fun k => offset schemes other + k)
          (fun a b h => Nat.add_left_cancel h),
        Circuit.count_senders, List.getElem?_eq_getElem hk]
      rfl
    · -- a unit of another circuit has no wires to this one
      have hwire : ((offset schemes name + i : Nat) : Int)
          ∉ d.units[k].wires.map fun w => w + (offset schemes other : Int) := by
        intro hin
        obtain ⟨w, hw, e⟩ := List.mem_map.1 hin
        obtain ⟨h0, hw⟩ := hwires (other, d) hother _ (List.getElem_mem hk) w hw
        have hinj := offset_add_inj hnames hother hmem (i := w.toNat) (by simp only at hw; omega) hi
        exact hself (hinj.1 (by omega)).1
      have hsender : offset schemes other + k
          ∉ (Circuit.senders c.units i).map fun k => offset schemes name + k := by
        intro hin
        obtain ⟨m, hm, e⟩ := List.mem_map.1 hin
        exact hself ((offset_add_inj hnames hmem hother (hlt m hm) hk).1 e).1.symm
      rw [List.count_eq_zero_of_not_mem hwire, List.count_eq_zero_of_not_mem hsender]
  · have hnone : (laidOut schemes places)[p]? = none := by
      rw [List.getElem?_eq_none_iff, length_laidOut]
      exact hp
    have hsender : p ∉ (Circuit.senders c.units i).map fun k => offset schemes name + k := by
      intro hin
      obtain ⟨m, hm, rfl⟩ := List.mem_map.1 hin
      have hbound := offset_add_lt hmem hnames (hlt m hm)
      omega
    rw [hnone, List.count_eq_zero_of_not_mem hsender]
    rfl

namespace Fits

variable {config : CompileConfig} {placed : List Placed} {links : List Link}
  {inputs outputs : List SlotPlan} {connections : List (List (Int × Int))} {ins outs : List Slot}

/-- **The senders of a unit of a design**: those of its circuit, and those of the drawn connections
that lead to it. -/
theorem senders_linked (h : Fits config placed links inputs outputs connections ins outs)
    {p : Placed} (hp : p ∈ placed) {i : Nat} (hi : i < p.circuit.units.length) :
    (Circuit.senders (linked placed connections) (offset (circuits placed) p.name + i)).Perm
      (((Circuit.senders p.circuit.units i).map fun k => offset (circuits placed) p.name + k)
        ++ Circuit.sendersAmong connections.flatten (offset (circuits placed) p.name + i)) := by
  have hrange : ∀ c ∈ connections.flatten,
      0 ≤ c.1 ∧ c.1 < (laidOut (circuits placed) (places placed)).length := by
    rw [length_laidOut]
    exact fun c hc => (inRange_of_mem_flatten (inRange_scope h.sound .output)
      (inRange_scope h.sound .input)
      (Loop.mapM_eq_ok_iff.2 (h.drawn.imp fun _ _ hlink => hlink.1)) c hc).1
  refine (Circuit.senders_attach hrange _).trans (List.Perm.append_right _ ?_)
  refine senders_laidOut (places placed) h.nodup_names ?_ (mem_circuits hp) hi
  intro s hs
  obtain ⟨q, hq, rfl⟩ := List.mem_map.1 hs
  exact (h.embeddable q hq).wires

section Uniform

variable {m k i : Nat} {p : Placed}

/-- The senders of a unit of a design of circuits of one size. -/
theorem senders_block (h : Fits config placed links inputs outputs connections ins outs)
    (hlength : ∀ p ∈ placed, p.circuit.units.length = m) (hp : placed[k]? = some p) (hi : i < m) :
    (Circuit.senders (linked placed connections) (m * k + i)).Perm
      (((Circuit.senders p.circuit.units i).map fun j => m * k + j)
        ++ Circuit.sendersAmong connections.flatten (m * k + i)) := by
  have hmem := List.mem_of_getElem? hp
  rw [← hlength p hmem] at hi
  have hsenders := h.senders_linked hmem hi
  rwa [offset_eq_mul h.names hlength hp] at hsenders

theorem part_block (h : Fits config placed links inputs outputs connections ins outs)
    (hlength : ∀ p ∈ placed, p.circuit.units.length = m) (hp : placed[k]? = some p) (hi : i < m) :
    ((linked placed connections)[m * k + i]?).map (fun e => e.part)
      = (p.circuit.units[i]?).map fun e => e.part := by
  have hmem := List.mem_of_getElem? hp
  rw [← hlength p hmem] at hi
  have hpart := h.part_linked hmem hi
  rwa [offset_eq_mul h.names hlength hp] at hpart

end Uniform

end Fits

end Assembly

end Breadboard
