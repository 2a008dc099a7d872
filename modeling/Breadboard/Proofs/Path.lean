import Breadboard.Slot
import Breadboard.Path

/-!
**Paths that name a slot.**

A path is cut at its first two separators, and it is read with defaults for the parts that are
missing.  If it names a scheme and a slot no default is used, and both find the parts that it names;
only the name of a sector may have separators.

Main definitions:

* `Path.cut` — the parts of a text between the first separators;
* `Path.Names` — a text names a scheme and a slot, and perhaps a sector;
* `Path.shortText` — the short form of a path.

Main results:

* `Path.read_scheme`, `Path.read_slot` — paths of one and of two names;
* `Path.splitFirst_cases` — where a text is cut;
* `Path.names_iff_cut`, `Path.Names.read_eq` — **cutting and reading find the parts that are
  named**. -/

set_option autoImplicit false
set_option relaxedAutoImplicit false

namespace Breadboard

namespace Path

/-- A path of one name. -/
theorem read_scheme {scheme other : String} (h : separator ∉ scheme.toList) :
    read other scheme = ⟨scheme, other, ""⟩ := by
  rw [read, splitFirst_of_not_mem h]

/-- A path of two names. -/
theorem read_slot {scheme slot other : String} (hscheme : separator ∉ scheme.toList)
    (hslot : separator ∉ slot.toList) (hne : slot ≠ "") :
    read other (scheme ++ String.singleton separator ++ slot) = ⟨scheme, slot, ""⟩ := by
  rw [read, splitFirst_append hscheme]
  simp only [if_neg hne, splitFirst_of_not_mem hslot, Option.getD_none]

/-! ### Paths that name a slot -/

/-- A text is cut nowhere, or it is a head without separator, a separator and a tail. -/
theorem splitFirst_cases (s : String) :
    splitFirst s = (s, none) ∧ separator ∉ s.toList
      ∨ ∃ head tail, splitFirst s = (head, some tail) ∧ separator ∉ head.toList
        ∧ s = head ++ String.singleton separator ++ tail := by
  by_cases h : separator ∈ s.toList
  · obtain ⟨before, after, hlist, hbefore⟩ := List.eq_append_cons_of_mem h
    have hhead : separator ∉ (String.ofList before).toList := by
      rwa [String.toList_ofList]
    have htext : s = String.ofList before ++ String.singleton separator ++ String.ofList after := by
      apply String.toList_inj.1
      simp [hlist]
    refine .inr ⟨String.ofList before, String.ofList after, ?_, hhead, htext⟩
    conv => lhs; rw [htext]
    exact splitFirst_append hhead
  · exact .inl ⟨splitFirst_of_not_mem h, h⟩

/-- The parts of a text between the first separators; without a third part the whole slot is
meant. -/
def cut (s : String) : Path :=
  let (scheme, tail) := splitFirst s
  let (slot, sector) := splitFirst (tail.getD "")
  ⟨scheme, slot, sector.getD wholeSector⟩

/-- A text names a scheme and a slot, and the whole slot or one of its sectors.  Only the name of a
sector may have separators. -/
structure Names (s : String) (p : Path) : Prop where
  scheme_ne : p.scheme ≠ ""
  slot_ne : p.slot ≠ ""
  scheme_sep : separator ∉ p.scheme.toList
  slot_sep : separator ∉ p.slot.toList
  form : (s = p.scheme ++ "/" ++ p.slot ∧ p.sector = wholeSector) ∨ s = p.text

/-- A text names its parts, if the first two are not empty. -/
theorem names_iff_cut {s : String} {p : Path} :
    Names s p ↔ cut s = p ∧ p.scheme ≠ "" ∧ p.slot ≠ "" := by
  obtain ⟨scheme, slot, sector⟩ := p
  constructor
  · rintro ⟨hscheme, hslot, hsep, hsep', hform⟩
    refine ⟨?_, hscheme, hslot⟩
    rcases hform with ⟨rfl, rfl⟩ | rfl
    · have hcut : splitFirst (scheme ++ "/" ++ slot) = (scheme, some slot) :=
        splitFirst_append hsep
      simp only [cut, hcut, Option.getD_some, splitFirst_of_not_mem hsep', Option.getD_none]
    · have htext : text ⟨scheme, slot, sector⟩ = scheme ++ String.singleton separator
          ++ (slot ++ String.singleton separator ++ sector) := by
        apply String.toList_inj.1
        simp [text]
      rw [htext]
      simp only [cut, splitFirst_append hsep, Option.getD_some, splitFirst_append hsep']
  · rintro ⟨hcut, hscheme, hslot⟩
    rcases splitFirst_cases s with ⟨hnone, _⟩ | ⟨head, tail, hhead, hsep, rfl⟩
    · -- without a separator no slot is named
      have hempty : splitFirst "" = ("", none) := rfl
      simp only [cut, hnone, Option.getD_none, hempty, mk.injEq] at hcut
      exact absurd hcut.2.1.symm hslot
    · rcases splitFirst_cases tail with ⟨hnone, hsep'⟩ | ⟨name, rest, hname, hsep', rfl⟩
      · simp only [cut, hhead, Option.getD_some, hnone, Option.getD_none, mk.injEq] at hcut
        obtain ⟨rfl, rfl, rfl⟩ := hcut
        exact ⟨hscheme, hslot, hsep, hsep', .inl ⟨rfl, rfl⟩⟩
      · simp only [cut, hhead, Option.getD_some, hname, mk.injEq] at hcut
        obtain ⟨rfl, rfl, rfl⟩ := hcut
        refine ⟨hscheme, hslot, hsep, hsep', .inr ?_⟩
        apply String.toList_inj.1
        simp [text]

/-- Reading finds the parts that are named, so that no default is used. -/
theorem Names.read_eq {s : String} {p : Path} (h : Names s p) (other : String) :
    read other s = p := by
  obtain ⟨scheme, slot, sector⟩ := p
  rcases h.form with ⟨hs, hwhole⟩ | hs
  · obtain rfl : sector = "" := hwhole
    rw [hs]
    exact read_slot h.scheme_sep h.slot_sep h.slot_ne
  · rw [hs]
    exact read_text h.scheme_sep h.slot_sep h.slot_ne

/-- The short form of a path: a whole slot is named without its sector. -/
def shortText (p : Path) : String :=
  if p.sector = wholeSector then p.scheme ++ "/" ++ p.slot
  else p.scheme ++ "/" ++ p.slot ++ "/" ++ p.sector

/-- What a text names is named by the short form as well. -/
theorem Names.names_shortText {s : String} {p : Path} (h : Names s p) : Names p.shortText p := by
  refine ⟨h.scheme_ne, h.slot_ne, h.scheme_sep, h.slot_sep, ?_⟩
  rw [shortText]
  split
  · rename_i hwhole
    exact .inl ⟨rfl, hwhole⟩
  · exact .inr rfl

end Path

end Breadboard
