/-!
**Indices that may count from the end.**

An index `i` of a list of `n` entries is an integer with `-n ≤ i < n`; a negative one counts from
the end, so `-1` is the last entry.

Main definitions:

* `Index.place?` — the place that an index means;
* `Index.get?` — the entry at an index.

Main results:

* `Index.place?_of_lt` — an index that is not negative is its own place;
* `Index.get?_isSome_iff` — **an index has an entry exactly when it is in range**.
-/

set_option autoImplicit false
set_option relaxedAutoImplicit false

namespace Breadboard

universe u

namespace Index

def place? (n : Nat) (i : Int) : Option Nat :=
  if 0 ≤ i then if i < n then some i.toNat else none
  else if -(n : Int) ≤ i then some (i + n).toNat
  else none

def get? {α : Type u} (l : List α) (i : Int) : Option α :=
  (place? l.length i).bind fun k => l[k]?

/-- A place is a place of the list. -/
theorem place?_lt {n k : Nat} {i : Int} (h : place? n i = some k) : k < n := by
  unfold place? at h
  split at h
  · split at h
    · cases h; omega
    · cases h
  · split at h
    · cases h; omega
    · cases h

/-- An index that is not negative is its own place. -/
theorem place?_of_lt {n : Nat} {i : Int} (h0 : 0 ≤ i) (h : i < n) :
    place? n i = some i.toNat := by
  rw [place?, if_pos h0, if_pos h]

/-- An index that is not negative finds the entry at its place. -/
theorem get?_of_lt {α : Type u} {l : List α} {i : Int} (h0 : 0 ≤ i) (h : i < l.length) :
    get? l i = l[i.toNat]? := by
  rw [get?, place?_of_lt h0 h]
  rfl

/-- **An index has an entry exactly when it is in range.** -/
theorem get?_isSome_iff {α : Type u} {l : List α} {i : Int} :
    (get? l i).isSome = true ↔ -(l.length : Int) ≤ i ∧ i < l.length := by
  unfold get?
  cases h : place? l.length i with
  | some k =>
      have hk := place?_lt h
      rw [Option.bind_some, List.getElem?_eq_getElem hk]
      unfold place? at h
      split at h
      · split at h
        · simp; omega
        · cases h
      · split at h
        · simp; omega
        · cases h
  | none =>
      unfold place? at h
      split at h
      · split at h
        · cases h
        · simp; omega
      · split at h
        · cases h
        · simp; omega

end Index

end Breadboard
