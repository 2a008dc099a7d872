/-!
**Paths.**

A path has the form `scheme`, `scheme/slot` or `scheme/slot/sector`.  A missing or empty slot means
the default slot, a missing sector the whole slot; the name of a sector may contain separators.

Main definitions:

* `Path.splitFirst` — a text cut at the first separator;
* `Path.read` — the path that a text denotes;
* `Path.text` — the full form of a path.

Main results:

* `Path.splitFirst_of_not_mem`, `Path.splitFirst_append` — where a text is cut;
* `Path.read_text` — **a path reads back from its full form**.
-/

set_option autoImplicit false
set_option relaxedAutoImplicit false

namespace Breadboard

/-- The three parts of a path. -/
structure Path where
  scheme : String
  slot : String
  /-- The sector; the empty name means the whole slot. -/
  sector : String
  deriving DecidableEq, Inhabited

namespace Path

/-- The separator between the parts of a path. -/
def separator : Char := '/'

/-- A text cut at the first separator; without one there is no tail. -/
def splitFirst (s : String) : String × Option String :=
  let cs := s.toList
  let head := String.ofList (cs.takeWhile fun c => c != separator)
  match cs.dropWhile fun c => c != separator with
  | [] => (head, none)
  | _ :: tail => (head, some (String.ofList tail))

def hasSeparator (s : String) : Bool := s.toList.contains separator

/-- The path that a text denotes, where a missing or empty slot is the given one. -/
def read (defaultSlot s : String) : Path :=
  match splitFirst s with
  | (scheme, none) => ⟨scheme, defaultSlot, ""⟩
  | (scheme, some tail) =>
      if tail = "" then ⟨scheme, defaultSlot, ""⟩
      else
        match splitFirst tail with
        | (slot, sector) => ⟨scheme, if slot = "" then defaultSlot else slot, sector.getD ""⟩

def text (p : Path) : String :=
  p.scheme ++ String.singleton separator ++ p.slot ++ String.singleton separator ++ p.sector

/-! ### Cutting at the first separator -/

/-- A text without separator has no tail. -/
theorem splitFirst_of_not_mem {s : String} (h : separator ∉ s.toList) :
    splitFirst s = (s, none) := by
  have keep : ∀ c ∈ s.toList, (c != separator) = true := by
    intro c hc
    simp only [bne_iff_ne, ne_eq]
    rintro rfl
    exact h hc
  have ht : (s.toList ++ []).takeWhile (fun c => c != separator) = s.toList ++ [] := by
    rw [List.takeWhile_append_of_pos keep]
    rfl
  have hd : (s.toList ++ []).dropWhile (fun c => c != separator) = [] := by
    rw [List.dropWhile_append_of_pos keep]
    rfl
  rw [List.append_nil] at ht hd
  simp [splitFirst, ht, hd]

/-- The head ends before the first separator. -/
theorem splitFirst_append {head tail : String} (h : separator ∉ head.toList) :
    splitFirst (head ++ String.singleton separator ++ tail) = (head, some tail) := by
  have keep : ∀ c ∈ head.toList, (c != separator) = true := by
    intro c hc
    simp only [bne_iff_ne, ne_eq]
    rintro rfl
    exact h hc
  simp [splitFirst, List.takeWhile_append_of_pos keep, List.dropWhile_append_of_pos keep,
    List.append_assoc]

/-- **A path reads back from its full form.** -/
theorem read_text {p : Path} {other : String} (hscheme : separator ∉ p.scheme.toList)
    (hslot : separator ∉ p.slot.toList) (hne : p.slot ≠ "") : read other p.text = p := by
  have htail : p.slot ++ String.singleton separator ++ p.sector ≠ "" := by
    intro e
    have := congrArg String.toList e
    simp at this
  have e : p.text = p.scheme ++ String.singleton separator
      ++ (p.slot ++ String.singleton separator ++ p.sector) := by
    apply String.toList_inj.1
    simp [text]
  rw [read, e, splitFirst_append hscheme]
  simp only [if_neg htail, splitFirst_append hslot, if_neg hne, Option.getD_some]

end Path

end Breadboard
