import Breadboard.Proofs.Assembly.Growing
import Breadboard.Proofs.Preset.GateRows

/-!
**The arithmetic circuits are built by calls.**

The designs of the arithmetic circuits are reached by calls, in an order that is not that of a
design: circuits are added many at once, placed afterwards, turned and connected, some before the
next ones are added, and the sections of a chain are added, placed and connected one by one.  None
of the calls fails.

Main definitions:

* `Arithmetic.sectionCalls`, `Arithmetic.adderCalls`, `Arithmetic.compactCalls`,
  `Arithmetic.inverterCalls` — the calls that build the arithmetic circuits;
* `Arithmetic.chain` — the first sections of a chain.

Main results:

* `Arithmetic.reaches_chain` — sections are added, placed and connected one after the other;
* `Arithmetic.adderSection_eq`, `Arithmetic.adder_eq`, `Arithmetic.adderCompact_eq`,
  `Arithmetic.inverter_eq` — **the arithmetic circuits are what their calls build**.
-/

set_option autoImplicit false
set_option relaxedAutoImplicit false

namespace Breadboard

namespace Arithmetic

open Assembly

/-- A single gate that is offered. -/
def gatePart (mode : GateMode) : Fragment := .device (.ofPart (.gate mode))

/-- The calls that build the full adder for one bit. -/
def sectionCalls : List Call :=
  [.addCopies ["a", "b", "_"] (gatePart .or),
   .addCopies ["and_1", "and_2", "and_3"] (gatePart .and),
   .add "res" (gatePart .xor),
   .place "a" ⟨0, 0, 0⟩, .place "b" ⟨0, 0, 1⟩, .place "_" ⟨2, 0, 1⟩,
   .place "and_1" ⟨1, 0, 0⟩, .place "and_2" ⟨1, 0, 1⟩, .place "and_3" ⟨2, 0, 0⟩,
   .place "res" ⟨3, 0, 0⟩,
   .rotate "a" (.facing .negX), .rotate "b" (.facing .negX), .rotate "res" (.facing .posX),
   .plan .input (.bit "a" ["a"]), .plan .input (.bit "b" ["b"]), .plan .input (.bit "_" ["_"]),
   .connectAll ["a", "b", "_"] ["res"] .straight,
   .connectAll ["a"] ["and_1", "and_2"] .straight,
   .connectAll ["b"] ["and_2", "and_3"] .straight,
   .connectAll ["_"] ["and_3", "and_1"] .straight,
   .plan .output (.bit "_" ["and_1", "and_2", "and_3"]), .plan .output (.bit "res" ["res"])]

/-- **The full adder is what its calls build.** -/
theorem adderSection_eq (config : CompileConfig) :
    adderSection config = built "adder_section" config sectionCalls := by
  obtain ⟨or, hor, _⟩ := exists_gate .or
  obtain ⟨and, hand, _⟩ := exists_gate .and
  obtain ⟨xor, hxor, _⟩ := exists_gate .xor
  rw [adderSection, hor, Fault.ok_bind, hand, Fault.ok_bind, hxor, Fault.ok_bind]
  refine (Reaches.built_eq ?_ rfl _).symm
  refine .cons (addCopies_eq_ok [] rfl hor rfl (by decide) (by decide)) ?_
  refine .cons (addCopies_eq_ok ["a", "b", "_"] rfl hand rfl (by decide) (by decide)) ?_
  refine .cons (add_eq_ok ["a", "b", "_", "and_1", "and_2", "and_3"] rfl hxor rfl (by decide)) ?_
  rfl

/-! ### The chain of full adders -/

section Chain

variable {config : CompileConfig} {part : Circuit} {n k : Nat}

/-- The calls for section `k` of a chain of `n`: it is added and placed, and its carry is connected
to the next section, if there is one. -/
def sectionRound (part : Circuit) (n k : Nat) : List Call :=
  [.add (toString k) (.circuit part), .placeLast ⟨0, k, 0⟩]
    ++ if k + 1 < n then [.connect (toString k) (toString (k + 1)) .straight] else []

/-- The calls that build a chain of full adders. -/
def adderCalls (part : Circuit) (n : Nat) : List Call :=
  (List.range n).flatMap (sectionRound part n)
    ++ [.plan .input (.wordByBit "a" n fun x => toString x ++ "/a"),
      .plan .input (.wordByBit "b" n fun x => toString x ++ "/b"),
      .plan .output (.wordByBit "_" n fun x => toString x ++ "/res")]

/-- The first `k` sections of a chain of `n`. -/
def chain (config : CompileConfig) (part : Circuit) (n k : Nat) : Assembly :=
  ofPlaced config ((List.range k).map fun (i : Nat) => ⟨toString i, part, ⟨0, i, 0⟩, .identity⟩)
    ((List.range (min k (n - 1))).map fun i => .straight (toString i) (toString (i + 1))) [] []

/-- The name of the next section can be used. -/
theorem refusal?_section (k : Nat) :
    refusal? ((List.range k).map fun (i : Nat) => toString i) (toString k) = none := by
  refine refusal?_eq_none_iff.2 ⟨Numeral.toString_ne_empty k, Numeral.separator_notMem k, ?_⟩
  rw [List.mem_map]
  rintro ⟨i, hi, he⟩
  exact Nat.ne_of_lt (List.mem_range.1 hi) (Numeral.toString_inj.1 he)

/-- **The next section is added, placed and connected.** -/
theorem reaches_chain (hk : k < n) :
    Reaches (sectionRound part n k) (chain config part n k) (chain config part n (k + 1)) := by
  have hfree : refusal? (((List.range k).map fun (i : Nat) =>
      (⟨toString i, part, ⟨0, i, 0⟩, .identity⟩ : Placed)).map Placed.name)
        (toString k) = none := by
    rw [List.map_map]
    exact refusal?_section k
  rw [chain, chain, sectionRound, List.range_succ, List.map_append]
  refine .append (reaches_add_placeLast part ⟨0, k, 0⟩ hfree) ?_
  by_cases hlast : k + 1 < n
  · rw [if_pos hlast, Nat.min_eq_left (by omega), Nat.min_eq_left (by omega), List.range_succ,
      List.map_append]
    exact reaches_connect _ _ _
  · -- the last section is connected to nothing
    rw [if_neg hlast, Nat.min_eq_right (by omega), Nat.min_eq_right (by omega)]
    rfl

/-- **The chain of full adders is what its calls build.** -/
theorem adder_eq (config : CompileConfig) (n : Nat) :
    adder config n = (do
      let (part, _) ← adderSection config
      built "adder" config (adderCalls part n)) := by
  refine bind_congr fun made => ?_
  have hrounds : Reaches ((List.range n).flatMap (sectionRound made.1 n))
      (chain config made.1 n 0) (chain config made.1 n n) :=
    Loop.forM_rounds fun k hk => reaches_chain hk
  rw [chain, Nat.zero_min, chain, Nat.min_eq_right (Nat.sub_le n 1)] at hrounds
  refine (built_eq_of_reaches hrounds ?_ _).symm
  refine .cons (plan_eq_ok [] "a" rfl rfl rfl (by decide)) ?_
  refine .cons (plan_eq_ok ["a"] "b" rfl rfl rfl (by decide)) ?_
  exact .cons (plan_eq_ok [] "_" rfl rfl rfl (by decide)) rfl

end Chain

/-! ### Circuits of rows -/

/-- The calls that put the rows of the compact adder together. -/
def compactRowCalls (carry and res : Circuit) : List Call :=
  [.add "carry" (.circuit carry),
   .addCopies ["and_1", "and_2", "and_3"] (.circuit and),
   .add "res" (.circuit res),
   .place "carry" ⟨1, 0, 1⟩, .place "and_1" ⟨0, 0, 0⟩, .place "and_2" ⟨0, 0, 1⟩,
   .place "and_3" ⟨1, 0, 0⟩, .place "res" ⟨2, 0, 0⟩,
   .rotate "carry" laid, .rotate "and_1" laid, .rotate "and_2" laid, .rotate "and_3" laid,
   .rotate "res" laid,
   .connectAll ["carry"] ["res", "and_3", "and_1"] .straight,
   .connectAll ["and_1", "and_2", "and_3"] ["carry"] (.shift ⟨1, 0, 0⟩)]

/-- The calls that build the compact adder of its rows. -/
def compactCalls (n : Nat) (top : String) (carry and res : Circuit) : List Call :=
  compactRowCalls carry and res
    ++ [.plan .input (.word "a" n ["and_1", "and_2", "res"]),
      .plan .input (.word "b" n ["and_2", "and_3", "res"]),
      .plan .output (.word "_" n ["res"]),
      .plan .input (.bit "carry" ["carry"]),
      .plan .output (.bit "carry"
        (["and_1", "and_2", "and_3"].map fun name => name ++ "/_/" ++ top ++ "_0_0"))]

/-- **The compact adder is what its calls build.** -/
theorem adderCompact_eq (config : CompileConfig) (n : Nat) (top : String) :
    adderCompact config n top = (do
      let carry ← row n .or .identity
      let and ← row n .and .identity
      let res ← row n .xor (.facing .negY)
      built "adder_compact" config (compactCalls n top carry and res)) := by
  refine bind_congr fun carry => ?_
  refine bind_congr fun and => ?_
  refine bind_congr fun res => ?_
  refine (built_eq_of_reaches ?_ ?_ _).symm
  · refine .cons (add_eq_ok [] rfl rfl rfl (by decide)) ?_
    refine .cons (addCopies_eq_ok ["carry"] rfl rfl rfl (by decide) (by decide)) ?_
    refine .cons (add_eq_ok ["carry", "and_1", "and_2", "and_3"] rfl rfl rfl (by decide)) ?_
    rfl
  · refine .cons (plan_eq_ok [] "a" rfl rfl rfl (by decide)) ?_
    refine .cons (plan_eq_ok ["a"] "b" rfl rfl rfl (by decide)) ?_
    refine .cons (plan_eq_ok [] "_" rfl rfl rfl (by decide)) ?_
    refine .cons (plan_eq_ok ["a", "b"] "carry" rfl rfl rfl (by decide)) ?_
    exact .cons (plan_eq_ok ["_"] "carry" rfl rfl rfl (by decide)) rfl

/-- The calls that put the gates and the rows of the inverter together. -/
def inverterRowCalls (or nor carry out : Circuit) : List Call :=
  [.addAll [("const_signal", gatePart .nor), ("const_signal_start", gatePart .and)],
   .place "const_signal" ⟨2, -1, 0⟩, .place "const_signal_start" ⟨1, -1, 0⟩,
   .connect "const_signal_start" "const_signal" .straight,
   .connectAll ["const_signal"] ["carry", "out"] .straight,
   .add "or" (.circuit or), .add "nor" (.circuit nor), .add "carry" (.circuit carry),
   .add "out" (.circuit out),
   .connect "or" "nor" .straight, .connect "nor" "out" .straight, .connect "nor" "carry" .straight,
   .connect "carry" "carry" (.shift ⟨1, 0, 0⟩), .connect "carry" "out" (.shift ⟨1, 0, 0⟩),
   .place "or" ⟨0, 0, 0⟩, .place "nor" ⟨1, 0, 0⟩, .place "carry" ⟨2, 0, 0⟩, .place "out" ⟨3, 0, 0⟩,
   .rotate "or" laid, .rotate "nor" laid, .rotate "carry" laid, .rotate "out" laid]

/-- The calls that build the inverter of its rows. -/
def inverterCalls (n : Nat) (or nor carry out : Circuit) : List Call :=
  inverterRowCalls or nor carry out
    ++ [.plan .input (.word "_" n ["or"]), .plan .output (.word "_" n ["out"])]

/-- **The inverter is what its calls build.** -/
theorem inverter_eq (config : CompileConfig) (n : Nat) :
    inverter config n = (do
      let or ← row n .or (.facing .posY)
      let nor ← row n .nor (.facing .posZ)
      let carry ← row n .and (.facing .posZ)
      let out ← row n .xor (.facing .negY)
      built "inverter" config (inverterCalls n or nor carry out)) := by
  obtain ⟨one, hone, _⟩ := exists_gate .nor
  obtain ⟨never, hnever, _⟩ := exists_gate .and
  have hgates : Becomes [("const_signal", gatePart .nor), ("const_signal_start", gatePart .and)]
      [("const_signal", one), ("const_signal_start", never)] :=
    .cons ⟨rfl, hone⟩ (.cons ⟨rfl, hnever⟩ .nil)
  rw [inverter, hone, Fault.ok_bind, hnever, Fault.ok_bind]
  refine bind_congr fun or => ?_
  refine bind_congr fun nor => ?_
  refine bind_congr fun carry => ?_
  refine bind_congr fun out => ?_
  refine (built_eq_of_reaches ?_ ?_ _).symm
  · refine .cons (addAll_eq_ok [] rfl hgates rfl (by decide) (by decide)) ?_
    rfl
  · refine .cons (plan_eq_ok [] "_" rfl rfl rfl (by decide)) ?_
    exact .cons (plan_eq_ok [] "_" rfl rfl rfl (by decide)) rfl

end Arithmetic

end Breadboard
