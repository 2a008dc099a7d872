import Breadboard.Blueprint.Basic
import Breadboard.Json.Access
import Breadboard.Proofs.Circuit.Live

/-!
**The records of live circuits.**

A circuit is written as the list of its units' records.  Only gates and timers have a controller,
which holds the number of the unit and lists the numbers of its receivers.  In a live circuit that
loses nothing, as no other unit has receivers, and every number that is listed is that of a record
with a controller.

Main definitions:

* `Json.controller?`, `Json.listed` — the controller of a record, and the numbers it lists;
* `Json.records` — the records of a document;
* `Circuit.ClosedDocument` — documents in which every number leads to a record with a controller.

Main results:

* `Circuit.exists_blueprint` — a circuit is written if there is a colour for every point of its
  slots;
* `Circuit.Live.listed_records` — **no connection is lost**;
* `Circuit.Live.closedDocument` — **every number that is listed leads to a controller**.
-/

set_option autoImplicit false
set_option relaxedAutoImplicit false

namespace Breadboard

namespace Json

/-- The controller of a record, if it has one. -/
def controller? (record : Json) : Option Json := record.field? "controller"

/-- The numbers that the controller of a record lists; none without a controller. -/
def listed (record : Json) : List Int :=
  ((record.get "controller").itemsAt "controllers").map fun v => v.wholeAt "id"

/-- The records of all bodies of a document. -/
def records (document : Json) : List Json :=
  (document.itemsAt "bodies").flatMap fun body => body.itemsAt "childs"

end Json

/-! ### Single records -/

namespace Part

variable (p : Part) (pos : Point) (turn : Turn) (wires : List Int) (id : Int)
  (color : Option String)

/-- Only gates and timers have a controller. -/
theorem controller?_record :
    (p.record pos turn wires id color).controller?.isSome = p.isLogic := by
  cases p <;> rfl

/-- A controller holds the number of its unit. -/
theorem id_of_controller? {controller : Json}
    (h : (p.record pos turn wires id color).controller? = some controller) :
    controller.field? "id" = some (.int id) := by
  cases p with
  | gate mode => cases h; rfl
  | timer ticks => cases h; rfl
  | block type size solid => cases h

theorem wholeAt_receivers :
    (receivers wires).items.map (fun v => v.wholeAt "id") = wires := by
  cases wires with
  | nil => rfl
  | cons w rest =>
      simp only [receivers, Json.items, List.map_map]
      refine (List.map_congr_left fun v _ => ?_).trans (List.map_id _)
      rfl

/-- A controller lists the receivers of its unit. -/
theorem listed_record (h : p.isLogic = true) :
    (p.record pos turn wires id color).listed = wires := by
  cases p with
  | gate mode => exact wholeAt_receivers wires
  | timer ticks => exact wholeAt_receivers wires
  | block type size solid => cases h

/-- A block lists nothing. -/
theorem listed_record_of_not_isLogic (h : p.isLogic = false) :
    (p.record pos turn wires id color).listed = [] := by
  cases p with
  | gate mode => cases h
  | timer ticks => cases h
  | block type size solid => rfl

end Part

namespace Circuit

/-! ### All records -/

variable {c : Circuit} {palette : Palette} {records : List Json}

/-- The record of a unit stands at its place. -/
theorem getElem?_records (h : c.records palette = .ok records) (i : Nat) :
    ∃ color, records[i]? = c.units[i]?.map fun e => e.record e.pos e.turn i color := by
  obtain ⟨all, _, h⟩ := Fault.bind_eq_ok_iff.1 h
  cases h
  refine ⟨lastStroke? all i, ?_⟩
  rw [List.getElem?_map, List.getElem?_zipIdx, Option.map_map, Nat.zero_add]
  rfl

/-- What is collected from the entries of a list, if there is something from each. -/
theorem exists_flatten {α β : Type} {f : α → Except Fault (List β)} {l : List α}
    (h : ∀ a ∈ l, ∃ r, f a = .ok r) :
    ∃ r, (do let found ← l.mapM f; pure found.flatten) = Except.ok (ε := Fault) r := by
  obtain ⟨found, hfound⟩ := Loop.mapM_isOk_iff.2 h
  exact ⟨_, Fault.bind_eq_ok_iff.2 ⟨found, hfound, rfl⟩⟩

/-- The records of gates and timers have controllers, and no others do. -/
theorem controllers_records (h : c.records palette = .ok records) :
    records.map (fun record => record.controller?.isSome)
      = c.units.map fun e => e.part.isLogic := by
  refine List.ext_getElem? fun i => ?_
  obtain ⟨color, hrecord⟩ := getElem?_records h i
  rw [List.getElem?_map, List.getElem?_map, hrecord, Option.map_map]
  refine congrArg (fun f => c.units[i]?.map f) (funext fun e => ?_)
  exact e.part.controller?_record _ _ _ _ _

/-- Colours are given to the units behind the points of slots, which have to exist. -/
theorem exists_strokesOf {color : Int → Point → Except Fault String} {slots : List Slot}
    (hcolor : ∀ number p, ∃ s, color number p = .ok s)
    (hslots : ∀ s ∈ slots, s.InRange c.units.length) :
    ∃ strokes, strokesOf c.units color slots = .ok strokes := by
  refine exists_flatten ?_
  rintro ⟨s, number⟩ hs
  refine exists_flatten ?_
  rintro ⟨p, ids⟩ hitem
  refine exists_flatten ?_
  intro id hid
  obtain ⟨h0, hlt⟩ := (hslots s (List.fst_mem_of_mem_zipIdx hs)).of_mem_items hitem hid
  have hunit : id.toNat < c.units.length := by omega
  rw [Index.get?_of_lt h0 hlt, List.getElem?_eq_getElem hunit]
  obtain ⟨shade, hshade⟩ := hcolor number p
  simp only [hshade, Fault.ok_bind]
  split
  · exact ⟨_, rfl⟩
  · exact ⟨_, rfl⟩

/-- A circuit is written if there is a colour for every point of its slots. -/
theorem exists_blueprint (h : c.SlotsInRange)
    (hin : ∀ number p, ∃ s, palette.input number p = .ok s)
    (hout : ∀ number p, ∃ s, palette.output number p = .ok s) :
    ∃ b, c.blueprint palette = .ok b := by
  obtain ⟨fromInputs, hfromInputs⟩ := exists_strokesOf hin (h .input)
  obtain ⟨fromOutputs, hfromOutputs⟩ := exists_strokesOf hout (h .output)
  have hstrokes : c.strokes palette = .ok (fromInputs ++ fromOutputs) :=
    Fault.bind_eq_ok_iff.2 ⟨_, hfromInputs, Fault.bind_eq_ok_iff.2 ⟨_, hfromOutputs, rfl⟩⟩
  exact ⟨_, Fault.bind_eq_ok_iff.2 ⟨_, Fault.bind_eq_ok_iff.2 ⟨_, hstrokes, rfl⟩, rfl⟩⟩

/-- The document of a circuit holds its records. -/
theorem records_document {b : Blueprint} (h : c.blueprint palette = .ok b) :
    ∃ records, c.records palette = .ok records ∧ b.document.records = records := by
  obtain ⟨records, hrecords, h⟩ := Fault.bind_eq_ok_iff.1 h
  cases h
  refine ⟨records, hrecords, ?_⟩
  show records ++ [] = records
  rw [List.append_nil]

/-! ### The document of a live circuit -/

/-- Every record with a controller holds its own place in it, and every number that a controller
lists is the place of a record with a controller. -/
structure ClosedDocument (records : List Json) : Prop where
  numbered : ∀ (i : Nat) (record controller : Json), records[i]? = some record →
    record.controller? = some controller → controller.field? "id" = some (.int i)
  listed : ∀ record ∈ records, ∀ w ∈ record.listed, 0 ≤ w ∧ ∃ receiver,
    records[w.toNat]? = some receiver ∧ receiver.controller?.isSome = true

/-- **No connection is lost.** -/
theorem Live.listed_records (hc : c.Live) (h : c.records palette = .ok records) :
    records.map Json.listed = c.units.map fun e => e.wires := by
  refine List.ext_getElem? fun i => ?_
  obtain ⟨color, hrecord⟩ := getElem?_records h i
  rw [List.getElem?_map, List.getElem?_map, hrecord, Option.map_map]
  cases he : c.units[i]? with
  | none => rfl
  | some e =>
      refine congrArg some ?_
      cases hlogic : e.part.isLogic with
      | true => exact e.part.listed_record _ _ _ _ _ hlogic
      | false =>
          -- a block has no receivers, so nothing is left out
          have hnil : e.wires = [] := by
            by_contra hne
            have hsender := hc.senders e (List.mem_of_getElem? he) hne
            rw [hlogic] at hsender
            cases hsender
          exact (e.part.listed_record_of_not_isLogic _ _ _ _ _ hlogic).trans hnil.symm

/-- **Every number that is listed leads to a controller.** -/
theorem Live.closedDocument (hc : c.Live) (h : c.records palette = .ok records) :
    ClosedDocument records := by
  refine ⟨?_, ?_⟩
  · intro i record controller hi hcontroller
    obtain ⟨color, hrecord⟩ := getElem?_records h i
    rw [hi] at hrecord
    obtain ⟨e, _, rfl⟩ := Option.map_eq_some_iff.1 hrecord.symm
    exact e.part.id_of_controller? _ _ _ _ _ hcontroller
  · intro record hmem w hw
    have hlisted : w ∈ (records.map Json.listed).flatten :=
      List.mem_flatten.2 ⟨_, List.mem_map_of_mem hmem, hw⟩
    rw [hc.listed_records h] at hlisted
    obtain ⟨wires, hwires, hw⟩ := List.mem_flatten.1 hlisted
    obtain ⟨e, he, rfl⟩ := List.mem_map.1 hwires
    obtain ⟨h0, u, hu, hlogic⟩ := hc.receivers e he w hw
    obtain ⟨color, hrecord⟩ := getElem?_records h w.toNat
    rw [hu] at hrecord
    exact ⟨h0, _, hrecord, (u.part.controller?_record _ _ _ _ _).trans hlogic⟩

end Circuit

end Breadboard
