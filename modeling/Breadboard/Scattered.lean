import Breadboard.Number.Double

/-!
**Integers scattered over a table.**

A set of integers is kept in a table with open addressing: the code of an integer decides where it
is put, and it goes on to other places as long as they are taken.  The set is gone through by
places, so its order is neither that of the integers nor that in which they came.

Main definitions:

* `Scattered` — the table;
* `Scattered.code` — the code of an integer, a word of 64 bits;
* `Scattered.insert` — one more integer;
* `Scattered.order` — the integers of a list, each once, in the order of their places.

Main results:

* `Scattered.code_lt` — a code is a word.
-/

set_option autoImplicit false
set_option relaxedAutoImplicit false

namespace Breadboard

/-- A table of integers; the number of places is a power of two. -/
structure Scattered where
  places : Array (Option Int)
  used : Nat

namespace Scattered

/-- The number of places of the smallest table. -/
def smallest : Nat := 8

def empty : Scattered := ⟨Array.replicate smallest none, 0⟩

/-- The prime modulo which integers are coded. -/
def modulus : Nat := Double.twoTo 61 - 1

def codes : Nat := Double.twoTo 64

/-- The code of an integer: its rest modulo the prime, with its sign, in 64 bits.  There is no code
for minus one, which shares that of minus two. -/
def code (i : Int) : Nat :=
  let rest : Int := (i.natAbs % modulus : Nat)
  let signed := if i < 0 then -rest else rest
  ((if signed = -1 then -2 else signed) % codes).toNat

/-- A code is a word. -/
theorem code_lt (i : Int) : code i < codes := by
  have hpos : (0 : Int) < codes := Int.natCast_pos.2 (Nat.pow_pos Nat.two_pos)
  unfold code
  simp only []
  generalize (if (if i < 0 then _ else _ : Int) = -1 then (-2 : Int) else _) = signed
  have h0 := Int.emod_nonneg signed (Int.ne_of_gt hpos)
  have h1 := Int.emod_lt_of_pos signed hpos
  omega

/-- The places that are tried one after the other before the next leap. -/
def run (places start : Nat) : List Nat :=
  if start + 9 < places then (List.range 10).map fun k => start + k else [start]

/-- The place of an integer: the first that is free or holds it.  Behind each run of places a leap
leads on, which at first depends on the higher bits of the code.  `fuel` bounds the leaps. -/
def place? (t : Scattered) (i : Int) : Nat → Nat → Nat → Option Nat
  | 0, _, _ => none
  | fuel + 1, start, rest =>
      let isRight (k : Nat) : Bool := match t.places[k]? with
        | some (some j) => j == i
        | _ => true
      match (run t.places.size start).find? isRight with
      | some k => some k
      | none =>
          let rest := rest / 32
          place? t i fuel ((start * 5 + 1 + rest) % t.places.size) rest

def put (t : Scattered) (i : Int) : Scattered :=
  match place? t i (t.places.size + 16) (code i % t.places.size) (code i) with
  | none => t
  | some k =>
      match t.places[k]? with
      | some none => ⟨t.places.set! k (some i), t.used + 1⟩
      | _ => t

def toList (t : Scattered) : List Int := t.places.toList.filterMap id

/-- The smallest number of places above a bound; `fuel` bounds the doublings. -/
def placesAbove (bound : Nat) : Nat → Nat → Nat
  | 0, places => places
  | fuel + 1, places => if places ≤ bound then placesAbove bound fuel (2 * places) else places

/-- The table with more places, into which the integers are put anew. -/
def grow (t : Scattered) : Scattered :=
  let bound := if 50000 < t.used then 2 * t.used else 4 * t.used
  t.toList.foldl put ⟨Array.replicate (placesAbove bound bound smallest) none, 0⟩

def insert (t : Scattered) (i : Int) : Scattered :=
  let t' := t.put i
  if t.used < t'.used ∧ (t'.places.size - 1) * 3 ≤ t'.used * 5 then t'.grow else t'

def order (values : List Int) : List Int := (values.foldl insert empty).toList

end Scattered

end Breadboard
