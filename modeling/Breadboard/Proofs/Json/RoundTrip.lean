import Breadboard.Json.Reader
import Breadboard.Json.Writer

/-!
**Documents are read as they were written.**

The text of a document is read by recursion on the document: each value is read back in front of
whatever may follow a value, which is the end of the text, a comma or a closing bracket.  A number
with a fraction is left out, because what its decimal reads back to is decided by the machine.

Main definitions:

* `Json.Plain` — a document without fractions, whose keys are all different and which is not too
  deep;
* `Json.chars` — the characters of a written document.

Main results:

* `Json.readText_writeText`, `Json.readAtom_int` — texts and integers;
* `Json.readValue_chars` — values, in front of whatever may follow them;
* `Json.read_write` — **a plain document that can be written is read as it was written**;
* `Json.return_notMem_chars` — a written document has no carriage return.
-/

set_option autoImplicit false
set_option relaxedAutoImplicit false

namespace Breadboard

/-! ### Digits -/

namespace Numeral

theorem digit?_of_isDigit {c : Char} (h : c.isDigit = true) :
    digit? c = some (c.toNat - '0'.toNat) := by
  rw [Char.isDigit, Bool.and_eq_true, decide_eq_true_eq, decide_eq_true_eq] at h
  exact if_pos ⟨h.1, h.2⟩

/-- The digits of a number are digits. -/
theorem isDigit_of_mem {n : Nat} {c : Char} (h : c ∈ Nat.toDigits 10 n) : c.isDigit = true :=
  Nat.isDigit_of_mem_toDigits (by decide) (by decide) h

/-- Digits are taken up to the first character that is none. -/
theorem spanDigits_append {cs rest : List Char} (hcs : ∀ c ∈ cs, c.isDigit = true)
    (hrest : ∀ c ∈ rest.head?, digit? c = none) :
    spanDigits (cs ++ rest) = (cs.filterMap digit?, rest) := by
  have htaken : (cs ++ rest).takeWhile (fun c => (digit? c).isSome) = cs
      ∧ (cs ++ rest).dropWhile (fun c => (digit? c).isSome) = rest := by
    induction cs with
    | nil =>
        cases rest with
        | nil => exact ⟨rfl, rfl⟩
        | cons c rest =>
            have hc := hrest c rfl
            simp [hc]
    | cons c cs ih =>
        have hc := digit?_of_isDigit (hcs c List.mem_cons_self)
        have hrest := ih fun d hd => hcs d (List.mem_cons_of_mem c hd)
        simp [hc, hrest]
  rw [spanDigits, htaken.1, htaken.2]

theorem length_filterMap_digit? {cs : List Char} (hcs : ∀ c ∈ cs, c.isDigit = true) :
    (cs.filterMap digit?).length = cs.length := by
  induction cs with
  | nil => rfl
  | cons c cs ih =>
      rw [List.filterMap_cons_some (digit?_of_isDigit (hcs c List.mem_cons_self)), List.length_cons,
        List.length_cons, ih fun d hd => hcs d (List.mem_cons_of_mem c hd)]

/-- A number has the value of its digits. -/
theorem value_toDigits (n : Nat) : value ((Nat.toDigits 10 n).filterMap digit?) = n := by
  have hfold (cs : List Char) (hcs : ∀ c ∈ cs, c.isDigit = true) (before : Nat) :
      (cs.filterMap digit?).foldl (fun n d => 10 * n + d) before = Nat.ofDigitChars 10 cs before := by
    induction cs generalizing before with
    | nil => rfl
    | cons c cs ih =>
        rw [List.filterMap_cons_some (digit?_of_isDigit (hcs c List.mem_cons_self)), List.foldl_cons,
          ih (fun d hd => hcs d (List.mem_cons_of_mem c hd)), Nat.ofDigitChars_cons]
  rw [value, hfold _ (fun c hc => isDigit_of_mem hc), Nat.ofDigitChars_ten_toDigits]

/-- A positive number does not begin with a zero. -/
theorem toDigits_eq_cons {n : Nat} (h : 0 < n) :
    ∃ c cs, Nat.toDigits 10 n = c :: cs ∧ c ≠ '0' := by
  induction n using Nat.strongRecOn with
  | ind n ih =>
      by_cases hsmall : n < 10
      · refine ⟨n.digitChar, [], Nat.toDigits_of_lt_base hsmall, ?_⟩
        have hall : ∀ m < 10, 0 < m → m.digitChar ≠ '0' := by decide
        exact hall n hsmall h
      · obtain ⟨c, cs, hdigits, hc⟩ := ih (n / 10) (by omega) (by omega)
        refine ⟨c, cs ++ [(n % 10).digitChar], ?_, hc⟩
        rw [Nat.toDigits_of_base_le (by decide) (by omega), hdigits, List.cons_append]

end Numeral

namespace Json

/-! ### What may follow a value -/

/-- What may follow a value inside a document, and the end of the text. -/
def Follows (rest : List Char) : Prop := ∀ c ∈ rest.head?, c = ',' ∨ c = ']' ∨ c = '\x7d'

theorem follows_nil : Follows [] := by
  intro c hc
  cases hc

theorem follows_cons {c : Char} {rest : List Char} (h : c = ',' ∨ c = ']' ∨ c = '\x7d') :
    Follows (c :: rest) := by
  intro d hd
  cases hd
  exact h

theorem Follows.digit? {rest : List Char} (h : Follows rest) :
    ∀ c ∈ rest.head?, Numeral.digit? c = none := by
  intro c hc
  rcases h c hc with rfl | rfl | rfl <;> rfl

/-- A number without a fraction and an exponent ends in front of what may follow it. -/
theorem Follows.readFraction {rest : List Char} (h : Follows rest) :
    readFraction rest = (none, rest) := by
  cases rest with
  | nil => rfl
  | cons c rest =>
      rcases h c rfl with rfl | rfl | rfl <;> rfl

theorem Follows.readExponent {rest : List Char} (h : Follows rest) :
    readExponent rest = (none, rest) := by
  cases rest with
  | nil => rfl
  | cons c rest =>
      rcases h c rfl with rfl | rfl | rfl <;> rfl

/-! ### Integers -/

/-- The digits of a number that can be written are read back. -/
theorem readNumber_toDigits {n : Nat} (negative : Bool) {rest : List Char}
    (hn : n < Numeral.writableBound) (h : Follows rest) :
    readNumber negative (Nat.toDigits 10 n ++ rest)
      = .ok (int (if negative then -(n : Int) else n), rest) := by
  have hdigits : ∀ c ∈ Nat.toDigits 10 n, c.isDigit = true := fun c hc => Numeral.isDigit_of_mem hc
  have hlength : ¬ Numeral.digitLimit < (Nat.toDigits 10 n).length := by
    have htenTo (k : Nat) : Double.tenTo k = 10 ^ k := rfl
    rw [Numeral.writableBound, htenTo] at hn
    rw [Nat.not_lt]
    exact (Nat.length_toDigits_le_iff (by decide) (by decide)).2 hn
  have hempty : ((Nat.toDigits 10 n).filterMap Numeral.digit?).isEmpty = false := by
    rw [List.isEmpty_eq_false_iff, ← List.length_pos_iff, Numeral.length_filterMap_digit? hdigits]
    exact Nat.length_toDigits_pos
  rcases Nat.eq_zero_or_pos n with rfl | hpos
  · rw [Nat.toDigits_zero, List.singleton_append]
    unfold readNumber
    simp only [h.readFraction, h.readExponent]
    rfl
  · obtain ⟨c, cs, hcons, hc⟩ := Numeral.toDigits_eq_cons hpos
    rw [readNumber, Numeral.spanDigits_append hdigits h.digit?]
    · simp only [hempty, Bool.false_eq_true, if_false, h.readFraction, h.readExponent,
        Numeral.length_filterMap_digit? hdigits, if_neg hlength, Numeral.value_toDigits]
    · intro tail e
      rw [hcons, List.cons_append] at e
      exact hc (List.cons.inj e).1

/-- A digit begins no word, whether or not a minus sign stands in front of it. -/
theorem expect_digit {c : Char} (hc : c.isDigit = true) (cs : List Char) :
    ∀ w ∈ words, expect w.1 (c :: cs) = none ∧ expect w.1 ('-' :: c :: cs) = none := by
  have hne (d : Char) (hd : d.isDigit = false) : (d == c) = false := by
    rw [beq_eq_false_iff_ne]
    rintro rfl
    rw [hc] at hd
    cases hd
  intro w hw
  simp only [words, List.mem_cons, List.not_mem_nil, or_false] at hw
  rcases hw with rfl | rfl | rfl | rfl | rfl | rfl <;>
    simp [expect, List.isPrefixOf, hne]

theorem findSome?_words {cs : List Char} (h : ∀ w ∈ words, expect w.1 cs = none) :
    (words.findSome? fun w => (expect w.1 cs).map fun rest => (w.2, rest)) = none := by
  rw [List.findSome?_eq_none_iff]
  intro w hw
  rw [h w hw, Option.map_none]

/-- The text of an integer: its digits, behind a minus sign if it is negative. -/
theorem toList_toString_int (i : Int) :
    (toString i).toList = if i < 0 then '-' :: Nat.toDigits 10 i.natAbs
      else Nat.toDigits 10 i.natAbs := by
  cases i with
  | ofNat n =>
      rw [if_neg (show ¬ Int.ofNat n < 0 from Int.not_lt.2 (Int.natCast_nonneg n))]
      exact Nat.toList_repr
  | negSucc n =>
      have htext : toString (Int.negSucc n) = "-" ++ (n + 1).repr := rfl
      rw [if_pos (Int.negSucc_lt_zero n), htext, String.toList_append, Nat.toList_repr]
      rfl

/-- **Integers are read as they were written.** -/
theorem readAtom_int {i : Int} {rest : List Char} (hi : Numeral.isWritable i = true)
    (h : Follows rest) : readAtom ((toString i).toList ++ rest) = .ok (int i, rest) := by
  have hbound : i.natAbs < Numeral.writableBound := of_decide_eq_true hi
  obtain ⟨c, cs, hcons⟩ := List.exists_cons_of_ne_nil (Nat.toDigits_ne_nil (n := i.natAbs) (b := 10))
  have hdigit : c.isDigit = true :=
    Numeral.isDigit_of_mem (n := i.natAbs) (by rw [hcons]; exact List.mem_cons_self)
  have hwords := expect_digit hdigit (cs ++ rest)
  rw [toList_toString_int]
  by_cases hneg : i < 0
  · rw [if_pos hneg, List.cons_append, readAtom, findSome?_words]
    · simp only [readNumber_toDigits true hbound h, if_true]
      rw [show -(i.natAbs : Int) = i by omega]
    · rw [hcons, List.cons_append]
      exact fun w hw => (hwords w hw).2
  · rw [if_neg hneg, readAtom, findSome?_words]
    · simp only [readNumber_toDigits false hbound h, Bool.false_eq_true, if_false]
      rw [show (i.natAbs : Int) = i by omega]
    · rw [hcons, List.cons_append]
      exact fun w hw => (hwords w hw).1
    · intro tail e
      rw [hcons, List.cons_append] at e
      rw [(List.cons.inj e).1] at hdigit
      cases hdigit

/-! ### Texts -/

theorem readUnit_append {cs rest : List Char} {n : Nat} {after : List Char}
    (h : readUnit cs = some (n, after)) : readUnit (cs ++ rest) = some (n, after ++ rest) := by
  match cs with
  | a :: b :: c :: d :: more =>
      simp only [readUnit, Option.bind_eq_bind, Option.bind_eq_some_iff, List.cons_append] at h ⊢
      obtain ⟨x, hx, y, hy, z, hz, w, hw, e⟩ := h
      refine ⟨x, hx, y, hy, z, hz, w, hw, ?_⟩
      cases e
      rfl

/-- A control character is written by its code and read back. -/
theorem readUnits_control {c : Char} (hc : c.toNat < 0x20) (rest : List Char) :
    ∃ code, writeUnits c = '\\' :: 'u' :: code ∧ readUnits (code ++ rest) = some (c, rest) := by
  have hunit : Unpaired.unit? c = none := by
    rw [Unpaired.unit?, if_neg]
    rintro ⟨h, _⟩
    simp only [Unpaired.lastPlane] at h
    omega
  have hcode : ∀ n < 0x20, readUnit (Quoted.hex 4 n) = some (n, []) := by decide
  refine ⟨Quoted.hex 4 c.toNat, ?_, ?_⟩
  · rw [writeUnits, hunit, Option.getD_none, if_pos (by omega), writeUnit]
  · rw [readUnits, readUnit_append (hcode _ hc)]
    simp only [Option.bind_eq_bind, Option.bind_some, List.nil_append]
    rw [if_neg (by omega), if_neg (by omega), Char.ofNat_toNat]
    rfl

/-- A character inside a text is read as it was written. -/
theorem readText_writeChar (c : Char) (fuel : Nat) (rest : List Char) :
    readText (fuel + 1) (writeChar .unicode c ++ rest) = (do
      let (text, after) ← readText fuel rest
      pure (c :: text, after)) := by
  unfold writeChar
  split
  case h_8 hquote hslash _ _ _ _ _ =>
    split
    · obtain ⟨code, hwrite, hread⟩ := readUnits_control ‹c.toNat < 0x20› rest
      rw [hwrite]
      simp only [List.cons_append, readText, hread, Option.bind_eq_bind, Option.bind_some]
    · rename_i hcontrol
      have hplain : ¬ (Alphabet.unicode = .ascii ∧ 0x7e < c.toNat) := fun h => by cases h.1
      rw [if_neg hplain, List.singleton_append, readText]
      · rw [if_neg (not_or.2 ⟨hcontrol, hslash⟩)]
      · exact hquote
      · exact fun _ h _ => hslash h
      · exact fun _ _ h _ => hslash h
  all_goals rfl

/-- **Texts are read as they were written.** -/
theorem readText_writeText (cs rest : List Char) {fuel : Nat} (h : cs.length < fuel) :
    readText fuel (cs.flatMap (writeChar .unicode) ++ '"' :: rest) = some (cs, rest) := by
  induction cs generalizing fuel with
  | nil =>
      obtain ⟨fuel, rfl⟩ := Nat.exists_eq_add_one_of_ne_zero (Nat.ne_of_gt h)
      rfl
  | cons c cs ih =>
      obtain ⟨fuel, rfl⟩ := Nat.exists_eq_add_one_of_ne_zero (Nat.ne_of_gt (Nat.zero_lt_of_lt h))
      rw [List.flatMap_cons, List.append_assoc, readText_writeChar,
        ih (Nat.lt_of_succ_lt_succ h)]
      rfl

/-! ### Documents -/

mutual

/-- A document without fractions, whose keys are all different, and in which at most `room` lists
and objects stand inside one another. -/
def Plain (room : Nat) : Json → Prop
  | null | bool _ | int _ | str _ => True
  | float _ => False
  | arr items => 0 < room ∧ ItemsPlain (room - 1) items
  | obj fields => 0 < room ∧ (Keyed.names fields).Nodup ∧ FieldsPlain (room - 1) fields

/-- The items of a list are plain. -/
def ItemsPlain (room : Nat) : List Json → Prop
  | [] => True
  | item :: rest => Plain room item ∧ ItemsPlain room rest

/-- The values of an object are plain. -/
def FieldsPlain (room : Nat) : List (String × Json) → Prop
  | [] => True
  | (_, value) :: rest => Plain room value ∧ FieldsPlain room rest

end

/-- The characters of a written document. -/
def chars (v : Json) : List Char := (v.write .unicode).toList

/-- The characters between the brackets of a written list. -/
def itemChars (items : List Json) : List Char := (", ".intercalate (writeItems .unicode items)).toList

/-- The characters between the braces of a written object. -/
def fieldChars (fields : List (String × Json)) : List Char :=
  (", ".intercalate (writeFields .unicode fields)).toList

/-- The characters of a written text behind its first quotation mark. -/
def textChars (s : String) : List Char := s.toList.flatMap (writeChar .unicode) ++ ['"']

theorem chars_str (s : String) : chars (str s) = '"' :: textChars s := by
  rw [chars, write, writeText, String.toList_ofList, textChars]

theorem chars_arr (items : List Json) : chars (arr items) = '[' :: (itemChars items ++ [']']) := by
  rw [chars, write, String.toList_append, String.toList_append]
  rfl

theorem chars_obj (fields : List (String × Json)) :
    chars (obj fields) = '\x7b' :: (fieldChars fields ++ ['\x7d']) := by
  rw [chars, write, String.toList_append, String.toList_append]
  rfl

theorem itemChars_singleton (item : Json) : itemChars [item] = chars item := by
  rw [itemChars, writeItems, writeItems, String.intercalate_singleton, chars]

theorem itemChars_cons (item next : Json) (rest : List Json) :
    itemChars (item :: next :: rest) = chars item ++ ',' :: ' ' :: itemChars (next :: rest) := by
  rw [itemChars, writeItems, writeItems, String.intercalate_cons_cons, String.toList_append,
    String.toList_append, List.append_assoc]
  rfl

/-- The characters of a field. -/
theorem toList_writeField (key : String) (value : Json) :
    (writeText .unicode key ++ ": " ++ value.write .unicode).toList
      = '"' :: (textChars key ++ ':' :: ' ' :: chars value) := by
  rw [String.toList_append, String.toList_append, writeText, String.toList_ofList, textChars, chars,
    List.append_assoc]
  rfl

theorem fieldChars_singleton (key : String) (value : Json) :
    fieldChars [(key, value)] = '"' :: (textChars key ++ ':' :: ' ' :: chars value) := by
  rw [fieldChars, writeFields, writeFields, String.intercalate_singleton, toList_writeField]

theorem fieldChars_cons (key : String) (value : Json) (next : String × Json)
    (rest : List (String × Json)) :
    fieldChars ((key, value) :: next :: rest)
      = '"' :: (textChars key ++ ':' :: ' ' ::
        (chars value ++ ',' :: ' ' :: fieldChars (next :: rest))) := by
  rw [fieldChars, writeFields, writeFields, String.intercalate_cons_cons, String.toList_append,
    String.toList_append, toList_writeField]
  simp only [List.cons_append, List.append_assoc]
  rfl

/-- An integer begins with a digit or with a minus sign. -/
theorem chars_int (i : Int) : ∃ c cs, chars (int i) = c :: cs ∧ (c = '-' ∨ c.isDigit = true) := by
  rw [chars, write, toList_toString_int]
  by_cases hneg : i < 0
  · exact ⟨'-', _, if_pos hneg, .inl rfl⟩
  · obtain ⟨c, cs, hcons⟩ :=
      List.exists_cons_of_ne_nil (Nat.toDigits_ne_nil (n := i.natAbs) (b := 10))
    refine ⟨c, cs, (if_neg hneg).trans hcons, .inr ?_⟩
    exact Numeral.isDigit_of_mem (n := i.natAbs) (by rw [hcons]; exact List.mem_cons_self)

/-- A written document begins neither with a blank nor with a closing bracket. -/
theorem chars_eq_cons {room : Nat} {v : Json} (h : v.Plain room) :
    ∃ c cs, chars v = c :: cs ∧ isGap c = false ∧ c ≠ ']' := by
  cases v with
  | null => exact ⟨'n', _, rfl, rfl, by decide⟩
  | bool b => cases b <;> exact ⟨_, _, rfl, rfl, by decide⟩
  | int i =>
      obtain ⟨c, cs, hchars, hc⟩ := chars_int i
      refine ⟨c, cs, hchars, ?_, ?_⟩
      · cases hgap : isGap c with
        | false => rfl
        | true =>
            simp only [isGap, Bool.or_eq_true, beq_iff_eq] at hgap
            rcases hgap with ((rfl | rfl) | rfl) | rfl <;> rcases hc with hc | hc <;> cases hc
      · rintro rfl
        rcases hc with hc | hc <;> cases hc
  | float d => exact h.elim
  | str s => exact ⟨_, _, chars_str s, rfl, by decide⟩
  | arr items => exact ⟨_, _, chars_arr items, rfl, by decide⟩
  | obj fields => exact ⟨_, _, chars_obj fields, rfl, by decide⟩

/-- No blank stands in front of a written document. -/
theorem skipGap_chars {room : Nat} {v : Json} (h : v.Plain room) (rest : List Char) :
    skipGap (chars v ++ rest) = chars v ++ rest := by
  obtain ⟨c, cs, hchars, hgap, _⟩ := chars_eq_cons h
  rw [hchars, List.cons_append, skipGap, List.dropWhile_cons, hgap]
  rfl

/-- Every character is written by one character at least. -/
theorem length_le_flatMap_writeChar (cs : List Char) :
    cs.length ≤ (cs.flatMap (writeChar .unicode)).length := by
  have hpos (c : Char) : 0 < (writeChar .unicode c).length := by
    unfold writeChar
    split
    case h_8 =>
      split
      · obtain ⟨code, hwrite, _⟩ := readUnits_control ‹c.toNat < 0x20› []
        rw [hwrite]
        exact Nat.succ_pos _
      · split
        · rename_i h
          cases h.1
        · exact Nat.succ_pos _
    all_goals exact Nat.succ_pos _
  induction cs with
  | nil => exact Nat.zero_le _
  | cons c cs ih =>
      have hc := hpos c
      rw [List.flatMap_cons, List.length_append, List.length_cons]
      omega

theorem readText_textChars (s : String) (rest : List Char) :
    readText ((textChars s ++ rest).length + 1) (textChars s ++ rest) = some (s.toList, rest) := by
  have hlength := length_le_flatMap_writeChar s.toList
  rw [textChars, List.append_assoc, List.singleton_append]
  refine readText_writeText _ _ ?_
  rw [List.length_append, List.length_cons]
  omega

/-- A word, a number or a text is no list and no object. -/
theorem readValue_eq_readAtom {c : Char} (fuel room : Nat) (cs : List Char) (hquote : c ≠ '"')
    (hlist : c ≠ '[') (hobject : c ≠ '\x7b') :
    readValue (fuel + 1) room (c :: cs) = readAtom (c :: cs) := by
  rw [readValue]
  · exact fun _ e => hquote (List.cons.inj e).1
  · exact fun _ e => hlist (List.cons.inj e).1
  · exact fun _ e => hobject (List.cons.inj e).1

/-- A text is read as it was written. -/
theorem readValue_str (s : String) (fuel room : Nat) (rest : List Char) :
    readValue (fuel + 1) room ('"' :: (textChars s ++ rest)) = .ok (str s, rest) := by
  rw [readValue, readText_textChars]
  simp only [wellFormed, bind, Except.bind, pure, Except.pure, String.ofList_toList]

/-- A number is read as it was written. -/
theorem readValue_int {i : Int} (fuel room : Nat) {rest : List Char}
    (hi : Numeral.isWritable i = true) (h : Follows rest) :
    readValue (fuel + 1) room (chars (int i) ++ rest) = .ok (int i, rest) := by
  obtain ⟨c, cs, hchars, hc⟩ := chars_int i
  have hread : readAtom (chars (int i) ++ rest) = .ok (int i, rest) := by
    rw [chars, write]
    exact readAtom_int hi h
  rw [hchars, List.cons_append] at hread ⊢
  rw [readValue_eq_readAtom, hread]
  all_goals
    rintro rfl
    rcases hc with hc | hc <;> cases hc

/-- What stands between the brackets of a list that is not empty. -/
theorem readValue_arr {fuel room : Nat} {items : List Json} {inner after : List Char}
    (hroom : 0 < room) (hgap : skipGap inner = inner) (hfirst : ∀ c ∈ inner.head?, c ≠ ']')
    (h : readItems fuel (room - 1) inner = .ok (items, after)) :
    readValue (fuel + 1) room ('[' :: inner) = .ok (arr items, after) := by
  rw [readValue, if_neg (Nat.ne_of_gt hroom), hgap]
  split
  · exact absurd rfl (hfirst ']' rfl)
  · rw [h]
    rfl

/-- The last item of a list. -/
theorem readItems_last {fuel room : Nat} {item : Json} {cs after : List Char}
    (h : readValue fuel room cs = .ok (item, ']' :: after)) :
    readItems (fuel + 1) room cs = .ok ([item], after) := by
  rw [readItems, h]
  rfl

/-- An item of a list with others behind it. -/
theorem readItems_cons {fuel room : Nat} {item : Json} {items : List Json} {cs more after : List Char}
    (h : readValue fuel room cs = .ok (item, ',' :: ' ' :: more)) (hgap : skipGap more = more)
    (hmore : readItems fuel room more = .ok (items, after)) :
    readItems (fuel + 1) room cs = .ok (item :: items, after) := by
  have hskip : skipGap (' ' :: more) = more := hgap
  rw [readItems, h]
  show (readItems fuel room (skipGap (' ' :: more)) >>= _) = _
  rw [hskip, hmore]
  rfl

/-- The text of an object that is not empty begins with a key. -/
theorem fieldChars_eq_cons (field : String × Json) (fields : List (String × Json)) :
    ∃ cs, fieldChars (field :: fields) = '"' :: cs := by
  obtain ⟨key, value⟩ := field
  cases fields with
  | nil => exact ⟨_, fieldChars_singleton key value⟩
  | cons next rest => exact ⟨_, fieldChars_cons key value next rest⟩

/-- The text of a list that is not empty begins with its first item. -/
theorem itemChars_eq_append (item : Json) (items : List Json) :
    ∃ cs, itemChars (item :: items) = chars item ++ cs := by
  cases items with
  | nil => exact ⟨[], by rw [itemChars_singleton, List.append_nil]⟩
  | cons next rest => exact ⟨_, itemChars_cons item next rest⟩

/-- What stands between the braces of an object that is not empty. -/
theorem readValue_obj {fuel room : Nat} {field : String × Json} {fields : List (String × Json)}
    {rest : List Char} (hroom : 0 < room)
    (h : readFields fuel (room - 1) [] (fieldChars (field :: fields) ++ '\x7d' :: rest)
      = .ok (field :: fields, rest)) :
    readValue (fuel + 1) room ('\x7b' :: (fieldChars (field :: fields) ++ '\x7d' :: rest))
      = .ok (obj (field :: fields), rest) := by
  obtain ⟨cs, hcs⟩ := fieldChars_eq_cons field fields
  rw [hcs, List.cons_append] at h ⊢
  have hgap : skipGap ('"' :: (cs ++ '\x7d' :: rest)) = '"' :: (cs ++ '\x7d' :: rest) := rfl
  rw [readValue, if_neg (Nat.ne_of_gt hroom), hgap]
  split
  · rename_i e
    exact absurd (List.cons.inj e).1 (by decide)
  · rw [h]
    rfl

/-- The last field of an object. -/
theorem readFields_last {fuel room : Nat} {key : String} {value : Json}
    {before : List (String × Json)} {cs after : List Char} (hgap : skipGap cs = cs)
    (h : readValue fuel room cs = .ok (value, '\x7d' :: after)) :
    readFields (fuel + 1) room before ('"' :: (textChars key ++ ':' :: ' ' :: cs))
      = .ok (Keyed.insert key value before, after) := by
  have hskip : skipGap (' ' :: cs) = cs := hgap
  rw [readFields, readText_textChars]
  show (readValue fuel room (skipGap (' ' :: cs)) >>= _) = _
  rw [hskip, h]
  show (.ok (Keyed.insert (String.ofList key.toList) value before, after) : Reads _) = _
  rw [String.ofList_toList]

/-- A field of an object with others behind it. -/
theorem readFields_cons {fuel room : Nat} {key : String} {value : Json} {next : String × Json}
    {before rest fields : List (String × Json)} {cs more after : List Char} (hgap : skipGap cs = cs)
    (h : readValue fuel room cs = .ok (value, ',' :: ' ' :: (fieldChars (next :: rest) ++ more)))
    (hmore : readFields fuel room (Keyed.insert key value before) (fieldChars (next :: rest) ++ more)
      = .ok (fields, after)) :
    readFields (fuel + 1) room before ('"' :: (textChars key ++ ':' :: ' ' :: cs))
      = .ok (fields, after) := by
  obtain ⟨tail, htail⟩ := fieldChars_eq_cons next rest
  rw [htail, List.cons_append] at h hmore
  have hskip : skipGap (' ' :: cs) = cs := hgap
  rw [readFields, readText_textChars]
  show (readValue fuel room (skipGap (' ' :: cs)) >>= _) = _
  rw [hskip, h]
  show readFields fuel room (Keyed.insert (String.ofList key.toList) value before)
    ('"' :: (tail ++ more)) = _
  rw [String.ofList_toList, hmore]

/-- A word is read as it was written. -/
theorem readValue_word {v : Json} (fuel room : Nat) (rest : List Char)
    (h : v = null ∨ v = bool true ∨ v = bool false) :
    readValue (fuel + 1) room (chars v ++ rest) = .ok (v, rest) := by
  rcases h with rfl | rfl | rfl
  · exact readValue_eq_readAtom fuel room _ (by decide) (by decide) (by decide)
  · exact readValue_eq_readAtom fuel room _ (by decide) (by decide) (by decide)
  · exact readValue_eq_readAtom fuel room _ (by decide) (by decide) (by decide)

/-- An integer is written if it is not too long. -/
theorem isWritable_of_writeFlaw? {alphabet : Alphabet} {i : Int}
    (h : writeFlaw? alphabet (int i) = none) : Numeral.isWritable i = true := by
  rw [writeFlaw?] at h
  cases hi : Numeral.isWritable i with
  | true => rfl
  | false =>
      rw [hi] at h
      cases h

/-- A field whose key is new goes to the end. -/
theorem insert_of_nodup {key : String} {value : Json} {before fields : List (String × Json)}
    (h : (Keyed.names (before ++ (key, value) :: fields)).Nodup) :
    Keyed.insert key value before = before ++ [(key, value)] := by
  refine Keyed.insert_of_find?_eq_none ?_
  rw [← Option.not_isSome_iff_eq_none]
  intro hsome
  rw [Keyed.names, List.map_append, List.map_cons, List.nodup_append] at h
  exact h.2.2 key (Keyed.has_iff.1 hsome) key List.mem_cons_self rfl

mutual

/-- A value is read as it was written, in front of whatever may follow it. -/
theorem readValue_chars (v : Json) {room fuel : Nat} {rest : List Char} (hplain : v.Plain room)
    (hwritable : v.writeFlaw? .unicode = none) (hrest : Follows rest)
    (hfuel : (chars v).length ≤ fuel) :
    readValue (fuel + 1) room (chars v ++ rest) = .ok (v, rest) := by
  cases v with
  | null => exact readValue_word fuel room rest (.inl rfl)
  | bool b => exact readValue_word fuel room rest (.inr (by cases b <;> simp))
  | int i =>
      exact readValue_int fuel room (isWritable_of_writeFlaw? hwritable) hrest
  | float d => exact hplain.elim
  | str s =>
      rw [chars_str]
      exact readValue_str s fuel room rest
  | arr items =>
      cases items with
      | nil =>
          have hempty : chars (arr []) = ['[', ']'] := rfl
          rw [hempty, List.cons_append, readValue, if_neg (Nat.ne_of_gt hplain.1)]
          rfl
      | cons item items =>
          rw [chars_arr, List.length_cons, List.length_append, List.length_singleton] at hfuel
          obtain ⟨fuel, rfl⟩ : ∃ n, fuel = n + 1 := ⟨fuel - 1, by omega⟩
          rw [chars_arr, List.cons_append, List.append_assoc, List.singleton_append]
          obtain ⟨more, hmore⟩ := itemChars_eq_append item items
          obtain ⟨c, cs, hchars, _, hbracket⟩ := chars_eq_cons hplain.2.1
          refine readValue_arr hplain.1 ?_ ?_
            (readItems_itemChars item items hplain.2 hwritable (by omega))
          · rw [hmore, List.append_assoc]
            exact skipGap_chars hplain.2.1 _
          · rw [hmore, hchars]
            rintro d ⟨⟩
            exact hbracket
  | obj fields =>
      cases fields with
      | nil =>
          have hempty : chars (obj []) = ['\x7b', '\x7d'] := rfl
          rw [hempty, List.cons_append, readValue, if_neg (Nat.ne_of_gt hplain.1)]
          rfl
      | cons field fields =>
          rw [chars_obj, List.length_cons, List.length_append, List.length_singleton] at hfuel
          obtain ⟨fuel, rfl⟩ : ∃ n, fuel = n + 1 := ⟨fuel - 1, by omega⟩
          rw [chars_obj, List.cons_append, List.append_assoc, List.singleton_append]
          exact readValue_obj hplain.1 (readFields_fieldChars field.1 field.2 fields [] hplain.2.2
            hplain.2.1 hwritable (show (fieldChars (field :: fields)).length < fuel by omega))
termination_by sizeOf v
decreasing_by
  all_goals
    subst_vars
    simp only [arr.sizeOf_spec, obj.sizeOf_spec, List.cons.sizeOf_spec, Prod.eta]
    omega

/-- The items of a list are read as they were written. -/
theorem readItems_itemChars (item : Json) (items : List Json) {room fuel : Nat} {rest : List Char}
    (hplain : ItemsPlain room (item :: items))
    (hwritable : itemsFlaw? .unicode (item :: items) = none)
    (hfuel : (itemChars (item :: items)).length < fuel) :
    readItems (fuel + 1) room (itemChars (item :: items) ++ ']' :: rest)
      = .ok (item :: items, rest) := by
  obtain ⟨fuel, rfl⟩ : ∃ n, fuel = n + 1 := ⟨fuel - 1, by omega⟩
  obtain ⟨hflaw, hflaws⟩ := Option.or_eq_none_iff.1 hwritable
  cases items with
  | nil =>
      rw [itemChars_singleton] at hfuel ⊢
      exact readItems_last (readValue_chars item hplain.1 hflaw (follows_cons (.inr (.inl rfl)))
        (by omega))
  | cons next items =>
      rw [itemChars_cons, List.length_append, List.length_cons, List.length_cons] at hfuel
      rw [itemChars_cons, List.append_assoc, List.cons_append, List.cons_append]
      obtain ⟨more, hmore⟩ := itemChars_eq_append next items
      refine readItems_cons (readValue_chars item hplain.1 hflaw (follows_cons (.inl rfl)) (by omega))
        ?_ (readItems_itemChars next items hplain.2 hflaws (by omega))
      rw [hmore, List.append_assoc]
      exact skipGap_chars hplain.2.1 _
termination_by sizeOf (item :: items)
decreasing_by
  all_goals
    subst_vars
    simp only [List.cons.sizeOf_spec]
    omega

/-- The fields of an object are read as they were written, behind those before. -/
theorem readFields_fieldChars (key : String) (value : Json) (fields before : List (String × Json))
    {room fuel : Nat} {rest : List Char} (hplain : FieldsPlain room ((key, value) :: fields))
    (hnames : (Keyed.names (before ++ (key, value) :: fields)).Nodup)
    (hwritable : fieldsFlaw? .unicode ((key, value) :: fields) = none)
    (hfuel : (fieldChars ((key, value) :: fields)).length < fuel) :
    readFields (fuel + 1) room before (fieldChars ((key, value) :: fields) ++ '\x7d' :: rest)
      = .ok (before ++ (key, value) :: fields, rest) := by
  obtain ⟨fuel, rfl⟩ : ∃ n, fuel = n + 1 := ⟨fuel - 1, by omega⟩
  obtain ⟨hflaw, hflaws⟩ := Option.or_eq_none_iff.1 hwritable
  have hvalue := (Option.or_eq_none_iff.1 hflaw).2
  have hinsert := insert_of_nodup hnames
  cases fields with
  | nil =>
      rw [fieldChars_singleton] at hfuel ⊢
      simp only [List.length_cons, List.length_append] at hfuel
      simp only [List.cons_append, List.append_assoc]
      rw [← hinsert]
      exact readFields_last (skipGap_chars hplain.1 _) (readValue_chars value hplain.1 hvalue
        (follows_cons (.inr (.inr rfl))) (by omega))
  | cons next fields =>
      rw [fieldChars_cons] at hfuel ⊢
      simp only [List.length_cons, List.length_append] at hfuel
      simp only [List.cons_append, List.append_assoc]
      rw [← List.singleton_append, ← List.append_assoc] at hnames
      refine readFields_cons (skipGap_chars hplain.1 _)
        (readValue_chars value hplain.1 hvalue (follows_cons (.inl rfl)) (by omega)) ?_
      rw [hinsert, List.append_cons before (key, value) (next :: fields)]
      exact readFields_fieldChars next.1 next.2 fields (before ++ [(key, value)]) hplain.2 hnames hflaws
        (show (fieldChars (next :: fields)).length < fuel by omega)
termination_by sizeOf ((key, value) :: fields)
decreasing_by
  all_goals
    subst_vars
    simp only [List.cons.sizeOf_spec, Prod.mk.sizeOf_spec, Prod.eta]
    omega

end

/-- **A plain document that can be written is read as it was written.** -/
theorem read_write {v : Json} (hplain : v.Plain depthLimit)
    (hwritable : v.writeFlaw? .unicode = none) : read (v.write .unicode) = .ok v := by
  have hgap : skipGap (v.write .unicode).toList = chars v := by
    rw [← List.append_nil (v.write .unicode).toList]
    exact (skipGap_chars hplain []).trans (List.append_nil _)
  have hvalue : readValue (2 * (chars v).length + 1 + 1) depthLimit (chars v ++ []) = .ok (v, []) :=
    readValue_chars v hplain hwritable follows_nil (by omega)
  rw [List.append_nil] at hvalue
  rw [read, hgap, hvalue]
  rfl

/-! ### Line ends -/

theorem return_notMem_digits (n : Nat) : '\r' ∉ Nat.toDigits 10 n := fun h => by
  cases Numeral.isDigit_of_mem h

theorem return_notMem_take (n k : Nat) : '\r' ∉ (Nat.toDigits 10 n).take k :=
  fun h => return_notMem_digits n (List.mem_of_mem_take h)

/-- A decimal consists of digits and a point. -/
theorem return_notMem_positional (n : Nat) (point : Int) :
    '\r' ∉ Double.positional (Nat.toDigits 10 n) point := by
  have hdigits := return_notMem_digits n
  have htake := return_notMem_take n
  have hdrop (k : Nat) : '\r' ∉ (Nat.toDigits 10 n).drop k :=
    fun h => hdigits (List.mem_of_mem_drop h)
  unfold Double.positional
  split
  · simp [hdigits]
  · split <;> simp [hdigits, htake, hdrop]

/-- A decimal with an exponent has its letter and its sign besides. -/
theorem return_notMem_scientific (n : Nat) (point : Int) :
    '\r' ∉ Double.scientific (Nat.toDigits 10 n) point := by
  have hdigits := return_notMem_digits
  have htake := return_notMem_take n
  have htail : '\r' ∉ (Nat.toDigits 10 n).tail := fun h => hdigits n (List.mem_of_mem_tail h)
  have hsign (p : Prop) [Decidable p] : '\r' ≠ (if p then '-' else '+') := by
    split <;> decide
  unfold Double.scientific
  split <;> simp [hdigits, htake, htail, hsign]

/-- The shortest decimal of a number has no carriage return. -/
theorem return_notMem_render (d : Double) : '\r' ∉ d.render.toList := by
  have hbody {body : List Char} (h : '\r' ∉ body) :
      '\r' ∉ (String.ofList (if d.isNegative then '-' :: body else body)).toList := by
    rw [String.toList_ofList]
    split
    · exact List.not_mem_cons_of_ne_of_not_mem (by decide) h
    · exact h
  unfold Double.render
  split
  · decide
  · refine hbody ?_
    split
    · decide
    · split
      · decide
      · dsimp only
        split
        · exact return_notMem_positional _ _
        · exact return_notMem_scientific _ _

theorem return_notMem_writeDouble (d : Double) : '\r' ∉ (writeDouble d).toList := by
  unfold writeDouble
  split
  · decide
  · split
    · split <;> decide
    · exact return_notMem_render d

/-- A carriage return inside a text is written as two other characters. -/
theorem return_notMem_textChars (s : String) : '\r' ∉ textChars s := by
  have hchar (c : Char) : '\r' ∉ writeChar .unicode c := by
    unfold writeChar
    split
    case h_8 _ _ _ hreturn _ _ _ =>
      split
      · rename_i hcontrol
        have hunits : ∀ n < 0x20, '\r' ∉ writeUnits (Char.ofNat n) := by decide
        have := hunits c.toNat hcontrol
        rwa [Char.ofNat_toNat] at this
      · rw [if_neg fun h => by cases h.1]
        exact fun h => hreturn (List.mem_singleton.1 h).symm
    all_goals decide
  rw [textChars, List.mem_append, List.mem_flatMap]
  rintro (⟨c, _, hc⟩ | h)
  · exact hchar c hc
  · revert h
    decide

mutual

/-- **A written document has no carriage return.** -/
theorem return_notMem_chars (v : Json) : '\r' ∉ chars v := by
  cases v with
  | null => decide
  | bool b => cases b <;> decide
  | int i =>
      rw [chars, write, toList_toString_int]
      split
      · exact List.not_mem_cons_of_ne_of_not_mem (by decide) (return_notMem_digits _)
      · exact return_notMem_digits _
  | float d => exact return_notMem_writeDouble d
  | str s =>
      rw [chars_str]
      exact List.not_mem_cons_of_ne_of_not_mem (by decide) (return_notMem_textChars s)
  | arr items =>
      have hitems := return_notMem_itemChars items
      rw [chars_arr]
      simp [hitems]
  | obj fields =>
      have hfields := return_notMem_fieldChars fields
      rw [chars_obj]
      simp [hfields]

theorem return_notMem_itemChars (items : List Json) : '\r' ∉ itemChars items := by
  match items with
  | [] => decide
  | [item] =>
      rw [itemChars_singleton]
      exact return_notMem_chars item
  | item :: next :: rest =>
      have hitem := return_notMem_chars item
      have hrest := return_notMem_itemChars (next :: rest)
      rw [itemChars_cons]
      simp [hitem, hrest]

theorem return_notMem_fieldChars (fields : List (String × Json)) : '\r' ∉ fieldChars fields := by
  match fields with
  | [] => decide
  | [(key, value)] =>
      have hkey := return_notMem_textChars key
      have hvalue := return_notMem_chars value
      rw [fieldChars_singleton]
      simp [hkey, hvalue]
  | (key, value) :: next :: rest =>
      have hkey := return_notMem_textChars key
      have hvalue := return_notMem_chars value
      have hrest := return_notMem_fieldChars (next :: rest)
      rw [fieldChars_cons]
      simp [hkey, hvalue, hrest]

end

end Json

end Breadboard
