import Breadboard.Proofs.Path
import Breadboard.Wiring.Scope

/-!
**The spellings of a path.**

Every text denotes a path, and many texts denote the same one: the slot can be left out or be empty
if the default slot is meant, and the sector if the whole slot is meant.  Which texts denote a path
is said by a grammar with one rule for each number of parts.  The full form of the path is one of
them, and looking up any of them has the same result as looking up the full form.

Main definitions:

* `Path.Spells` — **the grammar**: a text spells a path, with a default for the slot;
* `Path.IsNormal` — the path is spelled by its full form;
* `Missing.about` — the same report about another text.

Main results:

* `Path.read_eq_iff` — reading a text finds the one path that it spells;
* `Scope.resolve_agree_iff` — two texts are looked up alike in all scopes exactly if they spell the
  same path;
* `Path.read_normal_form` — **the full form of a path stands for all its spellings**.
-/

set_option autoImplicit false
set_option relaxedAutoImplicit false

namespace Breadboard

/-- The same report about another text. -/
def Missing.about (path : String) : Missing → Missing
  | noScheme _ scheme => noScheme path scheme
  | noSlot _ scheme slot => noSlot path scheme slot
  | noSector _ scheme slot sector => noSector path scheme slot sector

namespace Path

/-! ### The grammar -/

/-- The slot that a part of a text names: an empty part names the default slot. -/
def slotNamed (other part : String) : String := if part = "" then other else part

/-- **The grammar**: the text spells the path.  A text has one, two or three parts, and only the
third one may have separators; without a third part the whole slot is meant. -/
inductive Spells (other : String) : String → Path → Prop
  | scheme {scheme : String} (hscheme : separator ∉ scheme.toList) :
      Spells other scheme ⟨scheme, other, wholeSector⟩
  | slot {scheme slot : String} (hscheme : separator ∉ scheme.toList)
      (hslot : separator ∉ slot.toList) :
      Spells other (scheme ++ "/" ++ slot) ⟨scheme, slotNamed other slot, wholeSector⟩
  | sector {scheme slot sector : String} (hscheme : separator ∉ scheme.toList)
      (hslot : separator ∉ slot.toList) :
      Spells other (scheme ++ "/" ++ slot ++ "/" ++ sector) ⟨scheme, slotNamed other slot, sector⟩

/-- The path has a slot, and only its sector may have separators. -/
structure IsNormal (p : Path) : Prop where
  scheme_sep : separator ∉ p.scheme.toList
  slot_sep : separator ∉ p.slot.toList
  slot_ne : p.slot ≠ ""

variable {other s : String} {p : Path}

/-- Two parts are read with the default for an empty slot. -/
theorem read_two {scheme slot : String} (hscheme : separator ∉ scheme.toList)
    (hslot : separator ∉ slot.toList) :
    read other (scheme ++ "/" ++ slot) = ⟨scheme, slotNamed other slot, wholeSector⟩ := by
  by_cases hempty : slot = ""
  · have hcut : splitFirst (scheme ++ "/" ++ slot) = (scheme, some slot) :=
      splitFirst_append hscheme
    rw [read, hcut, slotNamed, if_pos hempty]
    simp only [if_pos hempty]
    rfl
  · rw [slotNamed, if_neg hempty]
    exact read_slot hscheme hslot hempty

/-- Three parts are read with the default for an empty slot. -/
theorem read_three {scheme slot sector : String} (hscheme : separator ∉ scheme.toList)
    (hslot : separator ∉ slot.toList) :
    read other (scheme ++ "/" ++ slot ++ "/" ++ sector)
      = ⟨scheme, slotNamed other slot, sector⟩ := by
  have hcut : splitFirst (scheme ++ "/" ++ slot ++ "/" ++ sector)
      = (scheme, some (slot ++ "/" ++ sector)) := by
    have htext : scheme ++ "/" ++ slot ++ "/" ++ sector
        = scheme ++ "/" ++ (slot ++ "/" ++ sector) := by
      simp only [String.append_assoc]
    rw [htext]
    exact splitFirst_append hscheme
  have hcut' : splitFirst (slot ++ "/" ++ sector) = (slot, some sector) := splitFirst_append hslot
  have hne : slot ++ "/" ++ sector ≠ "" := by
    intro h
    have hlist := congrArg String.toList h
    simp at hlist
  rw [read, hcut]
  simp only [if_neg hne, hcut', Option.getD_some]
  rfl

/-- Every text spells the path that is read from it. -/
theorem spells_read (other s : String) : Spells other s (read other s) := by
  rcases splitFirst_cases s with ⟨_, hsep⟩ | ⟨scheme, tail, _, hscheme, rfl⟩
  · rw [read_scheme hsep]
    exact .scheme hsep
  · rcases splitFirst_cases tail with ⟨_, hsep⟩ | ⟨slot, sector, _, hslot, rfl⟩
    · have hread : read other (scheme ++ String.singleton separator ++ tail)
          = ⟨scheme, slotNamed other tail, wholeSector⟩ := read_two hscheme hsep
      rw [hread]
      exact .slot hscheme hsep
    · have htext : scheme ++ String.singleton separator
          ++ (slot ++ String.singleton separator ++ sector)
          = scheme ++ "/" ++ slot ++ "/" ++ sector := by
        rw [← String.append_assoc, ← String.append_assoc]
        rfl
      rw [htext, read_three hscheme hslot]
      exact .sector hscheme hslot

/-- **Reading a text finds the one path that it spells.** -/
theorem read_eq_iff : read other s = p ↔ Spells other s p := by
  constructor
  · rintro rfl
    exact spells_read other s
  · intro h
    cases h with
    | scheme hscheme => exact read_scheme hscheme
    | slot hscheme hslot => exact read_two hscheme hslot
    | sector hscheme hslot => exact read_three hscheme hslot

/-- What a text spells is in normal form if the default is the name of a slot. -/
theorem Spells.isNormal (h : Spells other s p) (hsep : separator ∉ other.toList)
    (hne : other ≠ "") : p.IsNormal := by
  have hnamed {slot : String} (hslot : separator ∉ slot.toList) :
      separator ∉ (slotNamed other slot).toList ∧ slotNamed other slot ≠ "" := by
    rw [slotNamed]
    split
    · exact ⟨hsep, hne⟩
    · rename_i hslot_ne
      exact ⟨hslot, hslot_ne⟩
  cases h with
  | scheme hscheme => exact ⟨hscheme, hsep, hne⟩
  | slot hscheme hslot => exact ⟨hscheme, (hnamed hslot).1, (hnamed hslot).2⟩
  | sector hscheme hslot => exact ⟨hscheme, (hnamed hslot).1, (hnamed hslot).2⟩

theorem isNormal_read (s : String) : (read defaultSlot s).IsNormal :=
  (spells_read defaultSlot s).isNormal (by decide) (by decide)

theorem IsNormal.read_text (h : p.IsNormal) (other : String) : read other p.text = p :=
  Path.read_text h.scheme_sep h.slot_sep h.slot_ne

end Path

/-! ### Looking up spellings -/

namespace Scope

/-- What is found depends on the path that a text spells; only reports repeat the text. -/
theorem resolve_congr {s t : String} (h : Path.read defaultSlot t = Path.read defaultSlot s)
    (scope : Scope) : scope.resolve t = (scope.resolve s).mapError fun m => m.about t := by
  simp only [resolve, h]
  cases scope.find? (Path.read defaultSlot s).scheme with
  | none => rfl
  | some entry =>
      cases hslot : Circuit.findSlot? (Path.read defaultSlot s).slot entry.slots with
      | none => simp only [hslot]; rfl
      | some slot =>
          cases hsector : slot.getSector? (Path.read defaultSlot s).sector with
          | none => simp only [hslot, hsector]; rfl
          | some sector => simp only [hslot, hsector]; rfl

section Probes

variable {s : String} {p : Path} (h : Path.read defaultSlot s = p)
include h

theorem resolve_nil : resolve [] s = .error (.noScheme s p.scheme) := by
  rw [← h]
  rfl

/-- A circuit without slots is found by its name, and no slot of it. -/
theorem resolve_slotless : resolve [⟨p.scheme, 0, []⟩] s = .error (.noSlot s p.scheme p.slot) := by
  have hscheme : find? [⟨p.scheme, 0, []⟩] p.scheme = some ⟨p.scheme, 0, []⟩ :=
    List.find?_cons_of_pos (beq_self_eq_true _)
  simp only [resolve, h, hscheme]
  rfl

/-- A slot without sectors is found by its name, and only the whole of it. -/
theorem resolve_sectorless :
    resolve [⟨p.scheme, 0, [.point p.slot defaultKind 0]⟩] s = if p.sector = wholeSector
      then .ok ⟨0, .point p.slot defaultKind 0, (Slot.point p.slot defaultKind 0).whole⟩
      else .error (.noSector s p.scheme p.slot p.sector) := by
  have hscheme : find? [⟨p.scheme, 0, [.point p.slot defaultKind 0]⟩] p.scheme
      = some ⟨p.scheme, 0, [.point p.slot defaultKind 0]⟩ :=
    List.find?_cons_of_pos (beq_self_eq_true _)
  have hslot : Circuit.findSlot? p.slot [.point p.slot defaultKind 0]
      = some (.point p.slot defaultKind 0) := List.find?_cons_of_pos (beq_self_eq_true _)
  simp only [resolve, h, hscheme, hslot, Slot.getSector?]
  by_cases hwhole : p.sector = wholeSector
  · simp only [if_pos hwhole]
  · simp only [if_neg hwhole]
    rfl

end Probes

/-- **Two texts are looked up alike in all scopes exactly if they spell the same path.** -/
theorem resolve_agree_iff {s t : String} :
    (∀ scope : Scope, scope.resolve t = (scope.resolve s).mapError fun m => m.about t)
      ↔ Path.read defaultSlot t = Path.read defaultSlot s := by
  refine ⟨fun h => ?_, resolve_congr⟩
  obtain ⟨scheme, slot, sector, hs⟩ : ∃ a b c, Path.read defaultSlot s = ⟨a, b, c⟩ :=
    ⟨_, _, _, rfl⟩
  obtain ⟨scheme', slot', sector', ht⟩ : ∃ a b c, Path.read defaultSlot t = ⟨a, b, c⟩ :=
    ⟨_, _, _, rfl⟩
  -- a scope without circuits tells the schemes apart, a circuit without slots the slots, and a slot
  -- without sectors the sectors
  obtain rfl : scheme' = scheme := by
    have hnil := h []
    rw [resolve_nil hs, resolve_nil ht] at hnil
    exact (Missing.noScheme.inj (Except.error.inj hnil)).2
  obtain rfl : slot' = slot := by
    have hslotless := h [⟨scheme', 0, []⟩]
    rw [resolve_slotless hs, resolve_slotless ht] at hslotless
    exact (Missing.noSlot.inj (Except.error.inj hslotless)).2.2
  obtain rfl : sector' = sector := by
    have hsectorless := h [⟨scheme', 0, [.point slot' defaultKind 0]⟩]
    rw [resolve_sectorless hs, resolve_sectorless ht] at hsectorless
    by_cases hwhole' : sector' = wholeSector <;> by_cases hwhole : sector = wholeSector
    · exact hwhole'.trans hwhole.symm
    · rw [if_pos hwhole', if_neg hwhole] at hsectorless
      cases hsectorless
    · rw [if_neg hwhole', if_pos hwhole] at hsectorless
      cases hsectorless
    · rw [if_neg hwhole', if_neg hwhole] at hsectorless
      exact (Missing.noSector.inj (Except.error.inj hsectorless)).2.2.2
  exact ht.trans hs.symm

end Scope

/-! ### The full form -/

namespace Path

/-- **The full form of a path stands for all its spellings.**  A path whose scheme and slot have no
separators, and whose slot has a name, is read from its full form, whatever its sector and whatever
the default.  Every text spells such a path, which is read from its full form again; and in every
scope the text and the full form lead to the same sector, or they fail with the same report except
for the text that it is about. -/
theorem read_normal_form :
    (∀ (other : String) (p : Path), p.IsNormal → read other p.text = p)
      ∧ ∀ s, (read defaultSlot s).IsNormal
        ∧ read defaultSlot (read defaultSlot s).text = read defaultSlot s
        ∧ ∀ scope : Scope, scope.resolve (read defaultSlot s).text
          = (scope.resolve s).mapError fun m => m.about (read defaultSlot s).text := by
  refine ⟨fun other p h => h.read_text other, fun s => ?_⟩
  have hread := (isNormal_read s).read_text defaultSlot
  exact ⟨isNormal_read s, hread, Scope.resolve_congr hread⟩

/-- A sector whose name has separators, of a slot that is left empty.  The text and the full form
lead to the sector in one scope, and in another they fail with the same report. -/
theorem read_normal_form_adder :
    (⟨"adder", "sum", "3/extra"⟩ : Path).IsNormal
      ∧ read "in" "adder/sum/3/extra" = ⟨"adder", "sum", "3/extra"⟩
      ∧ ∃ t : Target, t.sector = ⟨⟨1, 0, 0⟩, ⟨2, 1, 1⟩, "bit"⟩
        ∧ Scope.resolve [⟨"adder", 4, [⟨"_", "bit", .filled ⟨⟨3, 1, 1⟩, rfl⟩ [],
            [("3/extra", ⟨⟨1, 0, 0⟩, ⟨2, 1, 1⟩, "bit"⟩)]⟩]⟩] "adder/_/3/extra" = .ok t
        ∧ Scope.resolve [⟨"adder", 4, [.point "_" "bit" 0]⟩] "adder/_/3/extra"
          = .error (.noSector "adder/_/3/extra" "adder" "_" "3/extra") := by
  have hnormal : (⟨"adder", "sum", "3/extra"⟩ : Path).IsNormal :=
    ⟨by decide, by decide, by decide⟩
  obtain ⟨hread, hspelled⟩ := read_normal_form
  have hspelling : read defaultSlot "adder//3/extra" = ⟨"adder", "_", "3/extra"⟩ := by decide
  obtain ⟨_, _, hresolve⟩ := hspelled "adder//3/extra"
  rw [hspelling] at hresolve
  exact ⟨hnormal, hread "in" _ hnormal, _, rfl, hresolve _, hresolve _⟩

end Path

end Breadboard
