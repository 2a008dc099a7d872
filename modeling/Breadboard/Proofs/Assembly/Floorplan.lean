import Breadboard.Preset.Catalog
import Breadboard.Proofs.Assembly.Designs
import Breadboard.Proofs.Assembly.Embedding
import Breadboard.Proofs.Circuit.Columns

/-!
**Floor plans of designs.**

A design that was linked has the cells of its circuits, each carried to its place.  Of its checks
nothing remains in it, so under other checks it is linked to the same circuit, as long as none of
its units sends to more others than these allow.

Main definitions:

* `Placed.cells` — the cells of a circuit at its place;
* `CompileConfig.Allows` — checks that a unit with so many receivers passes;
* `Recipe.Makes` — recipes that make one circuit, whatever is checked.

Main results:

* `Assembly.link_of_config`, `Assembly.makes_linkFor` — **linking under other checks**;
* `Assembly.cellsOf_of_linkFor` — **the cells of a linked design**;
* `Assembly.Fits.exists_solid` — **a design whose cells are different is linked to a solid
  circuit**.
-/

set_option autoImplicit false
set_option relaxedAutoImplicit false

namespace Breadboard

namespace Circuit

/-- The cells of a relocated circuit are carried to its place. -/
theorem cellsOf_relocated (start place : Point) (t : Turn) (offset : Int) (units : List Element) :
    cellsOf (units.map (relocated start place t offset))
      = (cellsOf units).map (motion start place t) := by
  rw [cellsOf, cellsOf, List.flatMap_map, List.map_flatMap]
  exact List.flatMap_congr fun e _ => cells_relocated start place t offset e

/-- What was built has the size of its bounding box. -/
theorem boundingBox_of_build {units : List Element} {inputs outputs : List Slot} {c : Circuit}
    (h : build units inputs outputs = .ok c) :
    ∃ start, boundingBox c.units = .ok (start, c.bounds) := by
  obtain ⟨hunits, _, _, hbounds⟩ := build_eq_ok h
  rw [hunits]
  cases hbox : boundingBox units with
  | error fault =>
      rw [hbox] at hbounds
      cases hbounds
  | ok box =>
      rw [hbox] at hbounds
      exact ⟨box.1, congrArg Except.ok (Prod.ext rfl (Except.ok.inj hbounds))⟩

end Circuit

/-- The cells of a circuit at its place. -/
def Placed.cells (p : Placed) : List Point :=
  (Circuit.cellsOf p.circuit.units).map (Circuit.motion p.circuit.corner p.place p.turn)

/-- The checks allow a unit to send to so many others. -/
def CompileConfig.Allows (config : CompileConfig) (limit : Nat) : Prop :=
  config.checkOverflow = true → (limit : Int) ≤ config.maxConnections

/-- The checks pass units of which none sends to more others than they allow. -/
def CompileConfig.Passes (config : CompileConfig) (units : List Element) : Prop :=
  config.checkOverflow = true → ∀ e ∈ units, (e.wires.length : Int) ≤ config.maxConnections

theorem CompileConfig.Allows.passes {config : CompileConfig} {limit : Nat}
    (hconfig : config.Allows limit) {units : List Element}
    (h : ∀ e ∈ units, e.wires.length ≤ limit) : config.Passes units := by
  intro hcheck e he
  have hlimit := hconfig hcheck
  have hwires := h e he
  omega

/-- Whatever is checked, a recipe makes one circuit, with nothing to report, or none; and it makes
one if a unit may send to so many others. -/
structure Recipe.Makes (recipe : Recipe) (c : Circuit) (limit : Nat) : Prop where
  only : ∀ config made, recipe config = .ok made → made = (c, [])
  made : ∀ config : CompileConfig, config.Allows limit → recipe config = .ok (c, [])

/-- A recipe that makes something of what another one makes. -/
theorem Recipe.Makes.bind {recipe : Recipe} {part c : Circuit} {limit : Nat}
    {f : Circuit × List Notice → Recipe} (h : recipe.Makes part limit)
    (hf : (f (part, [])).Makes c limit) :
    Recipe.Makes (fun config => recipe config >>= fun made => f made config) c limit where
  only config made hmade := by
    obtain ⟨first, hfirst, hmade⟩ := Fault.bind_eq_ok_iff.1 hmade
    rw [h.only config first hfirst] at hmade
    exact hf.only config made hmade
  made config hconfig :=
    Fault.bind_eq_ok_iff.2 ⟨_, h.made config hconfig, hf.made config hconfig⟩

namespace Assembly

theorem checkFanOut_of_passes {config : CompileConfig} {units : List Element}
    (h : config.Passes units) (outputs inputs : Scope) :
    checkFanOut config outputs inputs units = .ok () := by
  cases hcheck : config.checkOverflow with
  | false => simp only [checkFanOut, hcheck, Bool.false_and, Bool.false_eq_true, if_false]
  | true => exact checkFanOut_eq_ok (h hcheck)

/-- **Linking under other checks** has the same result, as long as its units pass them. -/
theorem link_of_config {a : Assembly} {c : Circuit} {d : Diagnostics} (h : a.link = .ok (c, d))
    {config : CompileConfig} (hconfig : config.Passes c.units) :
    link { a with config := config } = .ok (c, d) := by
  obtain ⟨places, blocks, ins, outs, drawn, hstages⟩ := link_eq_ok_iff_stages.1 h
  rw [(Circuit.build_eq_ok hstages.built).1] at hconfig
  -- the checks read the units, and no other stage reads what is checked
  exact link_eq_ok_iff_stages.2 ⟨places, blocks, ins, outs, drawn,
    { hstages with checked := checkFanOut_of_passes hconfig _ _ }⟩

/-- What was linked has the size of its bounding box. -/
theorem boundingBox_of_link {a : Assembly} {c : Circuit} {d : Diagnostics}
    (h : a.link = .ok (c, d)) : ∃ start, Circuit.boundingBox c.units = .ok (start, c.bounds) := by
  obtain ⟨_, _, _, _, _, hstages⟩ := link_eq_ok_iff_stages.1 h
  exact Circuit.boundingBox_of_build hstages.built

section Design

variable {config : CompileConfig} {placed : List Placed} {links : List Link}
  {inputs outputs : List SlotPlan} {what : String} {c : Circuit} {notices : List Notice}

/-- A design is linked to the same circuit under other checks. -/
theorem linkFor_of_config
    (h : (ofPlaced config placed links inputs outputs).linkFor what = .ok (c, notices))
    {config' : CompileConfig} (hconfig : config'.Passes c.units) :
    (ofPlaced config' placed links inputs outputs).linkFor what = .ok (c, notices) := by
  obtain ⟨⟨circuit, d⟩, hlink, h⟩ := Fault.bind_eq_ok_iff.1 h
  cases h
  exact Fault.bind_eq_ok_iff.2 ⟨_, link_of_config hlink hconfig, rfl⟩

/-- **Whatever is checked, a design makes one circuit.** -/
theorem makes_linkFor
    (h : (ofPlaced config placed links inputs outputs).linkFor what = .ok (c, []))
    {limit : Nat} (hwires : ∀ e ∈ c.units, e.wires.length ≤ limit) :
    Recipe.Makes (fun config => (ofPlaced config placed links inputs outputs).linkFor what) c
      limit where
  only config' made hmade := by
    -- nothing is refused where nothing is checked
    have hunchecked (units : List Element) : CompileConfig.Passes ⟨0, false⟩ units :=
      fun hcheck => absurd hcheck Bool.false_ne_true
    have hfirst := linkFor_of_config h (hunchecked c.units)
    have hsecond := linkFor_of_config hmade (hunchecked made.1.units)
    exact Except.ok.inj (hsecond.symm.trans hfirst)
  made config' hconfig := linkFor_of_config h (hconfig.passes hwires)

/-- **A linked design has the cells of its circuits**, each carried to its place. -/
theorem cellsOf_of_linkFor
    (h : (ofPlaced config placed links inputs outputs).linkFor what = .ok (c, notices))
    (hnames : (placed.map Placed.name).Nodup) :
    Circuit.cellsOf c.units = placed.flatMap Placed.cells := by
  obtain ⟨⟨circuit, d⟩, hlink, h⟩ := Fault.bind_eq_ok_iff.1 h
  cases h
  have hnodup : (Keyed.names (circuits placed)).Nodup := names_circuits.symm ▸ hnames
  obtain ⟨found, hfound, _, hcells⟩ := map_cells_of_link hnodup hlink
  have hplaces : found = places placed :=
    Except.ok.inj (hfound.symm.trans (arrange_ofPlaced config links inputs outputs hnames))
  have hseat (p : Placed) (hp : p ∈ placed) :
      seat (places placed) p.name = (p.place, p.turn) := by
    rw [seat, places, Keyed.find?_map (fun q : Placed => (q.place, q.turn)) hnames hp]
    rfl
  have hunits : Circuit.cellsOf c.units
      = Circuit.cellsOf (laidOut (circuits placed) (places placed)) := by
    rw [Circuit.cellsOf, List.flatMap_def, hcells, hplaces, ← List.flatMap_def]
    rfl
  rw [hunits, laidOut, Circuit.cellsOf, List.flatMap_assoc, circuits, List.flatMap_map]
  refine List.flatMap_congr fun p hp => ?_
  rw [seated, hseat p hp]
  exact Circuit.cellsOf_relocated p.circuit.corner p.place p.turn _ p.circuit.units

/-- The size of a linked design is that of its bounding box. -/
theorem boundingBox_of_linkFor
    (h : (ofPlaced config placed links inputs outputs).linkFor what = .ok (c, notices)) :
    ∃ start, Circuit.boundingBox c.units = .ok (start, c.bounds) := by
  obtain ⟨⟨circuit, d⟩, hlink, h⟩ := Fault.bind_eq_ok_iff.1 h
  cases h
  exact boundingBox_of_link hlink

/-- **A design whose cells are different and span a box is linked to a solid circuit**, under all
checks that its units pass. -/
theorem Fits.exists_solid {connections : List (List (Int × Int))} {ins outs : List Slot}
    (h : Fits config placed links inputs outputs connections ins outs) {start stop : Point}
    (hspans : Point.Spans start stop (placed.flatMap Placed.cells))
    (hcells : (placed.flatMap Placed.cells).Nodup) {limit : Nat}
    (hwires : ∀ e ∈ linked placed connections, e.wires.length ≤ limit) (what : String) :
    ∃ c, c.Solid (stop - start + .one) limit
      ∧ Recipe.Makes (fun config => (ofPlaced config placed links inputs outputs).linkFor what) c
        limit := by
  obtain ⟨c, hlink, hunits, _, _⟩ := h.exists_linkFor what
  rw [← hunits] at hwires
  rw [← cellsOf_of_linkFor hlink h.names] at hspans hcells
  exact ⟨c, Circuit.solid_of_cells (boundingBox_of_linkFor hlink) hspans hcells hwires,
    makes_linkFor hlink hwires⟩

end Design

end Assembly

end Breadboard
