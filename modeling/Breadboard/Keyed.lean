/-!
**Lists of values under names.**

The values keep the order in which their names first came.

Main definitions:

* `Keyed.find?` — the value of a name;
* `Keyed.insert` — a value is set: a known name keeps its place, a new one goes to the end.

Main results:

* `Keyed.find?_insert` — **the value that was set is found, and all others are as before**.
-/

set_option autoImplicit false
set_option relaxedAutoImplicit false

namespace Breadboard

universe u

abbrev Keyed (α : Type u) := List (String × α)

namespace Keyed

variable {α : Type u}

def find? (name : String) (entries : Keyed α) : Option α :=
  (List.find? (fun e => e.1 == name) entries).map Prod.snd

def has (name : String) (entries : Keyed α) : Bool := (find? name entries).isSome

def insert (name : String) (value : α) : Keyed α → Keyed α
  | [] => [(name, value)]
  | (n, v) :: rest => if n = name then (n, value) :: rest else (n, v) :: insert name value rest

def names (entries : Keyed α) : List String := entries.map Prod.fst

@[simp] theorem find?_nil (name : String) : find? name ([] : Keyed α) = none := rfl

theorem find?_cons (name n : String) (v : α) (rest : Keyed α) :
    find? name ((n, v) :: rest) = if n = name then some v else find? name rest := by
  by_cases h : n = name <;> simp [find?, h]

/-- **The value that was set is found, and all others are as before.** -/
theorem find?_insert (name other : String) (value : α) (entries : Keyed α) :
    find? other (insert name value entries)
      = if name = other then some value else find? other entries := by
  induction entries with
  | nil => simp [insert, find?_cons]
  | cons e rest ih =>
      obtain ⟨n, v⟩ := e
      by_cases hn : n = name
      · subst hn
        by_cases ho : n = other <;> simp [insert, find?_cons, ho]
      · by_cases ho : n = other
        · subst ho
          simp [insert, find?_cons, hn, Ne.symm hn]
        · simp [insert, find?_cons, hn, ho, ih]

/-- A name that has no value goes to the end. -/
theorem insert_of_find?_eq_none {name : String} {value : α} {entries : Keyed α}
    (h : find? name entries = none) : insert name value entries = entries ++ [(name, value)] := by
  induction entries with
  | nil => rfl
  | cons e rest ih =>
      obtain ⟨n, v⟩ := e
      rw [find?_cons] at h
      split at h
      · cases h
      · rename_i hn
        simp [insert, hn, ih h]

/-- A name has a value exactly if it is among the names. -/
theorem has_iff {name : String} {entries : Keyed α} :
    has name entries = true ↔ name ∈ names entries := by
  induction entries with
  | nil => simp [has, names]
  | cons e rest ih =>
      obtain ⟨n, v⟩ := e
      simp only [has, names, List.map_cons, List.mem_cons, find?_cons] at ih ⊢
      by_cases hn : n = name
      · simp [hn]
      · simp [hn, Ne.symm hn, ih]

end Keyed

end Breadboard
