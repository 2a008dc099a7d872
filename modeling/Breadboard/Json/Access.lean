import Breadboard.Json.Basic

/-!
**Parts of documents.**

A document that is read for its parts need not have them: what is not there counts as null, a
document of another kind than the one asked for has no items and no fields, and its text is empty.

Main definitions:

* `Json.get`, `Json.given?` — the value of a key, null if there is none, or nothing if it is null;
* `Json.items`, `Json.text`, `Json.whole` — a document as a list, as a text and as an integer;
* `Json.isTrue` — a document counts as true.

Main results:

* `Json.sizeOf_field?_lt`, `Json.sizeOf_items_lt` — **parts are smaller than the whole**, so a
  reading of nested documents ends.
-/

set_option autoImplicit false
set_option relaxedAutoImplicit false

namespace Breadboard

namespace Json

def get (v : Json) (key : String) : Json := (v.field? key).getD .null

def given? (v : Json) (key : String) : Option Json :=
  match v.field? key with
  | some .null => none
  | other => other

def items : Json → List Json
  | arr items => items
  | _ => []

def fields : Json → List (String × Json)
  | obj fields => fields
  | _ => []

def text : Json → String
  | str s => s
  | _ => ""

/-- The integer part of a number; truth values count as zero and one. -/
def whole : Json → Int
  | int i => i
  | bool b => if b then 1 else 0
  | float d => d.truncate
  | _ => 0

/-- Zero, null and everything that is empty count as false, all else counts as true. -/
def isTrue : Json → Bool
  | null => false
  | bool b => b
  | int i => i != 0
  | float d => !d.equalsInt 0
  | str s => s != ""
  | arr items => !items.isEmpty
  | obj fields => !fields.isEmpty

def texts (v : Json) : List String := v.items.map text

def wholes (v : Json) : List Int := v.items.map whole

def textAt (v : Json) (key : String) : String := (v.get key).text

/-- The text at a key that is there and is not null. -/
def textAt? (v : Json) (key : String) : Option String := (v.given? key).map text

def wholeAt (v : Json) (key : String) : Int := (v.get key).whole

def itemsAt (v : Json) (key : String) : List Json := (v.get key).items

/-! ### Parts are smaller than the whole -/

/-- A field is smaller than its object. -/
theorem sizeOf_field?_lt {v w : Json} {key : String} (h : v.field? key = some w) :
    sizeOf w < sizeOf v := by
  cases v with
  | obj fields =>
      simp only [field?, Keyed.find?, Option.map_eq_some_iff] at h
      obtain ⟨⟨k, u⟩, hmem, rfl⟩ := h
      have hlt := List.sizeOf_lt_of_mem (List.mem_of_find?_eq_some hmem)
      simp only [Prod.mk.sizeOf_spec] at hlt
      simp only [obj.sizeOf_spec]
      omega
  | _ => simp [field?] at h

/-- An item is smaller than its list. -/
theorem sizeOf_items_lt {v w : Json} (h : w ∈ v.items) : sizeOf w < sizeOf v := by
  cases v with
  | arr _ =>
      have hlt := List.sizeOf_lt_of_mem h
      simp only [items] at hlt
      simp only [arr.sizeOf_spec]
      omega
  | _ => simp [items] at h

/-- An item at a key is smaller than the object. -/
theorem sizeOf_itemsAt_lt {v w : Json} {key : String} (h : w ∈ v.itemsAt key) :
    sizeOf w < sizeOf v := by
  unfold itemsAt get at h
  cases hf : v.field? key with
  | none => simp [hf, items] at h
  | some u =>
      rw [hf, Option.getD_some] at h
      exact Nat.lt_trans (sizeOf_items_lt h) (sizeOf_field?_lt hf)

end Json

end Breadboard
