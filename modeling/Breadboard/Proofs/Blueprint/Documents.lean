import Breadboard.Blueprint.Store
import Breadboard.Proofs.Json.RoundTrip

/-!
**The documents of a blueprint.**

A blueprint and its description are validated when they are read.  Validation finds nothing to
complain about in what was written, and gives it back.

Main definitions:

* `Json.RoundTrips` — a document that can be written and is read as it was written;
* `Blueprint.IsRecorded` — every record of a blueprint is an object;
* `Description.IsEncodable` — the texts of a description can be written.

Main results:

* `Blueprint.check_document`, `Description.check_document` — **a document is validated to what it is
  the document of**;
* `Description.roundTrips` — **descriptions are read as they were written**.
-/

set_option autoImplicit false
set_option relaxedAutoImplicit false

namespace Breadboard

/-- A power of ten is positive. -/
theorem Double.tenTo_pos (k : Nat) : 0 < tenTo k := Nat.pow_pos (by decide)

theorem Numeral.isWritable_zero : isWritable 0 = true := by
  rw [isWritable, writableBound]
  exact decide_eq_true (Double.tenTo_pos _)

namespace Json

/-- A document that can be written and is read as it was written. -/
structure RoundTrips (v : Json) : Prop where
  writable : v.writeFlaw? .unicode = none
  readable : read (v.write .unicode) = .ok v

/-- A plain document that can be written is read as it was written. -/
theorem roundTrips_of_plain {v : Json} (hplain : v.Plain depthLimit)
    (hwritable : v.writeFlaw? .unicode = none) : v.RoundTrips :=
  ⟨hwritable, read_write hplain hwritable⟩

/-- A written document is read from a file as it was written. -/
theorem plainLines_write (v : Json) :
    String.ofList (Tree.plainLines (v.write .unicode).toList) = v.write .unicode := by
  have hplain : Tree.plainLines (v.write .unicode).toList = (v.write .unicode).toList :=
    Tree.plainLines_of_not_mem (return_notMem_chars v)
  rw [hplain, String.ofList_toList]

theorem RoundTrips.documentText {v : Json} (h : v.RoundTrips) :
    Disk.documentText v = .ok (v.write .unicode) := by
  rw [Disk.documentText, h.writable]

end Json

namespace Checked

universe u

/-- Items are validated to what they are the documents of. -/
theorem items_map {α : Type u} {check : Json → Checked α} {write : α → Json} {values : List α}
    (h : ∀ a ∈ values, check (write a) = .ok a) : items check (values.map write) = .ok values := by
  -- the places are counted from any number on
  have hfrom (k : Nat) :
      all (((values.map write).zipIdx k).map fun e => under (.item e.2) (check e.1)) = .ok values := by
    induction values generalizing k with
    | nil => rfl
    | cons a values ih =>
        rw [List.map_cons, List.zipIdx_cons, List.map_cons, all,
          ih (fun b hb => h b (List.mem_cons_of_mem a hb))]
        show map₂ (· :: ·) (under (.item k) (check (write a))) (.ok values) = _
        rw [h a List.mem_cons_self]
        rfl
  exact hfrom 0

end Checked

namespace Blueprint

/-- Every record of a blueprint is an object. -/
def IsRecorded (b : Blueprint) : Prop := ∀ records ∈ b.bodies, ∀ r ∈ records, ∃ fields, r = .obj fields

/-- **The document of a blueprint is validated to the blueprint.** -/
theorem check_document {b : Blueprint} (h : b.IsRecorded) : check b.document = .ok b := by
  have hrecords : ∀ records ∈ b.bodies, Checked.items checkRecord records = .ok records := by
    intro records hrecords
    have hitems : Checked.items checkRecord (records.map id) = .ok records := by
      refine Checked.items_map fun r hr => ?_
      obtain ⟨fields, rfl⟩ := h records hrecords r hr
      rfl
    rwa [List.map_id] at hitems
  have hbodies : Checked.items checkBody (b.bodies.map fun records => .obj [("childs", .arr records)])
      = .ok b.bodies := by
    refine Checked.items_map fun records hmem => ?_
    show Checked.under (.key "childs") (Checked.items checkRecord records) = _
    rw [hrecords records hmem]
    rfl
  show Checked.map₂ Blueprint.mk
    (Checked.under (.key "bodies") (Checked.items checkBody (b.bodies.map fun records =>
      .obj [("childs", .arr records)]))) (Checked.under (.key "version") (.ok b.version)) = _
  rw [hbodies]
  rfl

end Blueprint

namespace Description

/-- The texts of a description can be written. -/
structure IsEncodable (d : Description) : Prop where
  text : Unpaired.occursIn d.text = false
  localId : Unpaired.occursIn d.localId = false
  name : Unpaired.occursIn d.name = false
  type : Unpaired.occursIn d.type = false
  version : Numeral.isWritable d.version = true

/-- **The document of a description is validated to the description.** -/
theorem check_document (d : Description) : check d.document = .ok d := by
  cases d
  rfl

/-- Descriptions are read as they were written. -/
theorem roundTrips {d : Description} (h : d.IsEncodable) : d.document.RoundTrips := by
  have hflaw (s : String) (hs : Unpaired.occursIn s = false) : Json.textFlaw? .unicode s = none := by
    rw [Json.textFlaw?, hs]
    exact if_neg fun h => by cases h.2
  have hkeys : ["description", "localId", "name", "type", "version"].Nodup := by decide
  refine Json.roundTrips_of_plain
    ⟨by decide, hkeys, trivial, trivial, trivial, trivial, trivial, trivial⟩ ?_
  have hnone (key : String) (v : Json) (rest : List (String × Json))
      (hkey : Unpaired.occursIn key = false) (hv : v.writeFlaw? .unicode = none)
      (hrest : Json.fieldsFlaw? .unicode rest = none) :
      Json.fieldsFlaw? .unicode ((key, v) :: rest) = none := by
    rw [Json.fieldsFlaw?, hflaw key hkey, hv, hrest]
    rfl
  refine hnone _ _ _ (by decide) (hflaw _ h.text) (hnone _ _ _ (by decide) (hflaw _ h.localId)
    (hnone _ _ _ (by decide) (hflaw _ h.name) (hnone _ _ _ (by decide) (hflaw _ h.type)
      (hnone _ _ _ (by decide) ?_ rfl))))
  rw [Json.writeFlaw?, if_pos h.version]

end Description

end Breadboard
