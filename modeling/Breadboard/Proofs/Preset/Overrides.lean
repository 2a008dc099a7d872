import Breadboard.Command.Run
import Breadboard.Proofs.Loop
import Breadboard.Proofs.Sorted

/-!
**Values given for parameters.**

A preset is built from values that are given for some of its parameters.  First the names are looked
at: names that are no parameters are refused together, before anything is made.  Then the parameters
are gone through in their order, and the first text that cannot be converted to the type of the
default is refused.  Only if there is none, something is made, of one value for each parameter.

One name does not get as far as that.  The preset itself is passed under `Preset.reservedName`, so a
value given under this name is an error of the program, whatever the other names are.

Main definitions:

* `Parameter.Converts` — what a text becomes for a parameter, and `Parameter.refusal`;
* `Preset.Takes` — the value that a parameter takes;
* `Preset.Ends` — how building a preset ends.

Main results:

* `Parameter.Converts.kindName_eq` — a converted text has the type of the default;
* `Preset.argument_eq_ok_iff`, `Preset.argument_eq_error_iff` — one parameter;
* `Preset.exists_unknown`, `Preset.unknownParameters_iff` — values under names that are no
  parameters;
* `Preset.build_eq_iff` — **building ends as described, and in no other way**.
-/

set_option autoImplicit false
set_option relaxedAutoImplicit false

namespace Breadboard

namespace Keyed

variable {α : Type}

/-- The names after a value was set. -/
theorem mem_names_insert {name other : String} {value : α} {entries : Keyed α} :
    other ∈ names (insert name value entries) ↔ other = name ∨ other ∈ names entries := by
  rw [← has_iff, ← has_iff, has, has, find?_insert]
  by_cases h : name = other
  · simp [h]
  · simp [h, Ne.symm h]

theorem find?_eq_none_iff {name : String} {entries : Keyed α} :
    find? name entries = none ↔ name ∉ names entries := by
  rw [← has_iff, has, Bool.not_eq_true, Option.isSome_eq_false_iff, Option.isNone_iff_eq_none]

theorem mem_names_split (before after : Keyed α) (name : String) (value : α) :
    name ∈ names (before ++ (name, value) :: after) :=
  List.mem_map_of_mem (List.mem_append_right before List.mem_cons_self)

/-- A name that has a value has a first one. -/
theorem exists_first {name : String} {entries : Keyed α} (h : name ∈ names entries) :
    ∃ before value after, entries = before ++ (name, value) :: after ∧ name ∉ names before := by
  induction entries with
  | nil => cases h
  | cons entry rest ih =>
      by_cases hname : entry.1 = name
      · subst hname
        exact ⟨[], entry.2, rest, rfl, List.not_mem_nil⟩
      · obtain ⟨before, value, after, rfl, hbefore⟩ :=
          ih ((List.mem_cons.1 h).resolve_left (Ne.symm hname))
        refine ⟨entry :: before, value, after, rfl, fun hmem => ?_⟩
        exact (List.mem_cons.1 hmem).elim (fun e => hname e.symm) hbefore

end Keyed

namespace Parameter

/-! ### Texts -/

/-- What a text becomes for a parameter with the given default. -/
inductive Converts : Json → String → Json → Prop where
  | truth {dflt b : Bool} {s : String} (word : truth? s = some b) :
      Converts (.bool dflt) s (.bool b)
  | whole {dflt i : Int} {s : String} (numeral : Numeral.readInt s = .ok i) :
      Converts (.int dflt) s (.int i)
  | number {dflt d : Double} {s : String} (numeral : Numeral.readDouble? s = some d) :
      Converts (.float dflt) s (.float d)
  | letters {dflt : List Json} (s : String) :
      Converts (.arr dflt) s (.arr (s.toList.map fun c => .str (String.ofList [c])))
  | nothing {dflt : List (String × Json)} : Converts (.obj dflt) "" (.obj [])
  | text {dflt : String} (s : String) : Converts (.str dflt) s (.str s)

/-- The refusal of a text that cannot be converted.  There is none for a default without a type. -/
def refusal (name s : String) (dflt : Json) : Fault :=
  match dflt with
  | .null => .wrongType
  | .bool _ => .badBoolean name s
  | _ => .badNumber name dflt.kindName s

section Texts

variable {name s : String} {dflt v : Json} {fault : Fault}

/-- A converted text has the type of the default. -/
theorem Converts.kindName_eq (h : Converts dflt s v) : v.kindName = dflt.kindName := by
  cases h <;> rfl

theorem ofText_eq_ok_iff : ofText name s dflt = .ok v ↔ Converts dflt s v := by
  constructor
  · intro h
    cases dflt with
    | null => cases h
    | bool b =>
        rw [ofText] at h
        cases hword : truth? s with
        | none => rw [hword] at h; cases h
        | some b => rw [hword] at h; cases h; exact .truth hword
    | int i =>
        rw [ofText] at h
        cases hnumeral : Numeral.readInt s with
        | error fault => rw [hnumeral] at h; cases h
        | ok i => rw [hnumeral] at h; cases h; exact .whole hnumeral
    | float d =>
        rw [ofText] at h
        cases hnumeral : Numeral.readDouble? s with
        | none => rw [hnumeral] at h; cases h
        | some d => rw [hnumeral] at h; cases h; exact .number hnumeral
    | str t => cases h; exact .text s
    | arr items => cases h; exact .letters s
    | obj fields =>
        rw [ofText] at h
        split at h
        · rename_i hs
          cases h
          rw [hs]
          exact .nothing
        · cases h
  · intro h
    cases h with
    | truth word => rw [ofText, word]
    | whole numeral => rw [ofText, numeral]
    | number numeral => rw [ofText, numeral]
    | letters => rfl
    | nothing => rfl
    | text => rfl

/-- A text that is refused is refused in the same way by all conversions. -/
theorem refusal_of_ofText (h : ofText name s dflt = .error fault) :
    fault = refusal name s dflt := by
  cases dflt with
  | null => cases h; rfl
  | bool b =>
      rw [ofText] at h
      split at h <;> cases h
      rfl
  | int i =>
      rw [ofText] at h
      split at h <;> cases h
      rfl
  | float d =>
      rw [ofText] at h
      split at h <;> cases h
      rfl
  | str t => cases h
  | arr items => cases h
  | obj fields =>
      rw [ofText] at h
      split at h <;> cases h
      rfl

/-- A text is refused exactly if it is converted to nothing. -/
theorem ofText_eq_error_iff :
    ofText name s dflt = .error fault ↔
      (∀ v, ¬ Converts dflt s v) ∧ fault = refusal name s dflt := by
  constructor
  · intro h
    refine ⟨fun v hv => ?_, refusal_of_ofText h⟩
    rw [ofText_eq_ok_iff.2 hv] at h
    cases h
  · rintro ⟨hnone, rfl⟩
    cases htext : ofText name s dflt with
    | ok v => exact absurd (ofText_eq_ok_iff.1 htext) (hnone v)
    | error fault => rw [refusal_of_ofText htext]

/-- A refused text is reported, unless the default has no type. -/
theorem isReported_refusal : (refusal name s dflt).isReported = true ↔ dflt ≠ .null := by
  cases dflt <;> simp [refusal, Fault.isReported]

/-- Texts are converted, and all other values are taken as they are. -/
theorem coerce_eq_ok_iff {given : Json} : coerce name given dflt = .ok v ↔
    (∃ s, given = .str s ∧ Converts dflt s v) ∨ (∀ s, given ≠ .str s) ∧ v = given := by
  cases given with
  | str s => simp [coerce, ofText_eq_ok_iff]
  | _ => simp [coerce, eq_comm]

theorem coerce_eq_error_iff {given : Json} : coerce name given dflt = .error fault ↔
    ∃ s, given = .str s ∧ (∀ v, ¬ Converts dflt s v) ∧ fault = refusal name s dflt := by
  cases given with
  | str s => simp [coerce, ofText_eq_error_iff]
  | _ => simp [coerce]

end Texts

end Parameter

namespace Preset

/-! ### The values of the parameters -/

/-- The value that a parameter takes: the default, or the value that is given.  A text is converted
to the type of the default. -/
inductive Takes (overrides : Keyed Json) (name : String) (dflt : Json) : Json → Prop where
  | default (free : name ∉ Keyed.names overrides) : Takes overrides name dflt dflt
  | text {s : String} {v : Json} (given : Keyed.find? name overrides = some (.str s))
      (converted : Parameter.Converts dflt s v) : Takes overrides name dflt v
  | value {v : Json} (given : Keyed.find? name overrides = some v) (kept : ∀ s, v ≠ .str s) :
      Takes overrides name dflt v

section Values

variable {overrides : Keyed Json} {param taken : String × Json} {fault : Fault}

theorem argument_of_find?_eq_none (h : Keyed.find? param.1 overrides = none) :
    argument overrides param = .ok param := by
  simp only [argument, h]

theorem argument_of_find?_eq_some {given : Json} (h : Keyed.find? param.1 overrides = some given) :
    argument overrides param = (do pure (param.1, ← Parameter.coerce param.1 given param.2)) := by
  simp only [argument, h]

theorem argument_eq_ok_iff : argument overrides param = .ok taken ↔
    taken.1 = param.1 ∧ Takes overrides param.1 param.2 taken.2 := by
  constructor
  · intro h
    cases hfind : Keyed.find? param.1 overrides with
    | none =>
        rw [argument_of_find?_eq_none hfind] at h
        cases h
        exact ⟨rfl, .default (Keyed.find?_eq_none_iff.1 hfind)⟩
    | some given =>
        rw [argument_of_find?_eq_some hfind] at h
        obtain ⟨v, hv, h⟩ := Fault.bind_eq_ok_iff.1 h
        cases h
        rcases Parameter.coerce_eq_ok_iff.1 hv with ⟨s, rfl, hconverted⟩ | ⟨hkept, rfl⟩
        · exact ⟨rfl, .text hfind hconverted⟩
        · exact ⟨rfl, .value hfind hkept⟩
  · obtain ⟨name, v⟩ := taken
    rintro ⟨rfl, htakes⟩
    cases htakes with
    | default free => exact argument_of_find?_eq_none (Keyed.find?_eq_none_iff.2 free)
    | text given converted =>
        rw [argument_of_find?_eq_some given,
          Parameter.coerce_eq_ok_iff.2 (.inl ⟨_, rfl, converted⟩)]
        rfl
    | value given kept =>
        rw [argument_of_find?_eq_some given, Parameter.coerce_eq_ok_iff.2 (.inr ⟨kept, rfl⟩)]
        rfl

theorem argument_eq_error_iff : argument overrides param = .error fault ↔
    ∃ s, Keyed.find? param.1 overrides = some (.str s)
      ∧ (∀ v, ¬ Parameter.Converts param.2 s v) ∧ fault = Parameter.refusal param.1 s param.2 := by
  constructor
  · intro h
    cases hfind : Keyed.find? param.1 overrides with
    | none =>
        rw [argument_of_find?_eq_none hfind] at h
        cases h
    | some given =>
        rw [argument_of_find?_eq_some hfind] at h
        rcases Fault.bind_eq_error_iff.1 h with hrefused | ⟨v, _, h⟩
        · obtain ⟨s, rfl, hnone, rfl⟩ := Parameter.coerce_eq_error_iff.1 hrefused
          exact ⟨s, rfl, hnone, rfl⟩
        · cases h
  · rintro ⟨s, hfind, hnone, rfl⟩
    rw [argument_of_find?_eq_some hfind, Parameter.coerce_eq_error_iff.2 ⟨s, rfl, hnone, rfl⟩]
    rfl

end Values

/-! ### How building ends -/

section Building

variable {α : Type} {p : Preset α} {overrides : Keyed Json}

/-- How building a preset ends: an error of the program if a value is given under the reserved name;
else all names that are no parameters are refused, in increasing order; else the first text that
cannot be converted; else something is made of one value for each parameter. -/
inductive Ends (p : Preset α) (overrides : Keyed Json) : Except Fault α → Prop where
  | reserved (given : reservedName ∈ Keyed.names overrides) : Ends p overrides (.error .wrongType)
  | unknown {names : List String} (free : reservedName ∉ Keyed.names overrides)
      (nonempty : names ≠ [])
      (increasing : names.Pairwise fun a b => Sorted.textLt a b = true)
      (listed : ∀ name, name ∈ names ↔
        name ∈ Keyed.names overrides ∧ name ∉ Keyed.names p.params) :
      Ends p overrides (.error (.unknownParameters p.name names))
  | refused {before after taken : Keyed Json} {name s : String} {dflt : Json}
      (free : reservedName ∉ Keyed.names overrides)
      (known : ∀ name ∈ Keyed.names overrides, name ∈ Keyed.names p.params)
      (split : p.params = before ++ (name, dflt) :: after)
      (earlier : List.Forall₂ (fun param taken => taken.1 = param.1
        ∧ Takes overrides param.1 param.2 taken.2) before taken)
      (given : Keyed.find? name overrides = some (.str s))
      (nothing : ∀ v, ¬ Parameter.Converts dflt s v) :
      Ends p overrides (.error (Parameter.refusal name s dflt))
  | made {values : Keyed Json} (free : reservedName ∉ Keyed.names overrides)
      (known : ∀ name ∈ Keyed.names overrides, name ∈ Keyed.names p.params)
      (taken : List.Forall₂ (fun param taken => taken.1 = param.1
        ∧ Takes overrides param.1 param.2 taken.2) p.params values) :
      Ends p overrides (.ok (p.make values))

/-- The unknown names are those that are given and are no parameters. -/
theorem unknownNames_eq_iff {names : List String} : p.unknownNames overrides = names ↔
    names.Pairwise (fun a b => Sorted.textLt a b = true) ∧
      ∀ name, name ∈ names ↔ name ∈ Keyed.names overrides ∧ name ∉ Keyed.names p.params := by
  simp only [unknownNames, Sorted.ofList_eq_iff Sorted.isOrder_textLt, List.mem_filter,
    Bool.not_eq_true', ← Keyed.has_iff, Bool.not_eq_true]

theorem unknownNames_eq_nil_iff : p.unknownNames overrides = [] ↔
    ∀ name ∈ Keyed.names overrides, name ∈ Keyed.names p.params := by
  rw [unknownNames_eq_iff]
  simp

theorem build_of_reserved (h : reservedName ∈ Keyed.names overrides) :
    p.build overrides = .error .wrongType := by
  rw [build, arguments, if_pos (Keyed.has_iff.2 h)]
  rfl

theorem build_of_unknown (hfree : reservedName ∉ Keyed.names overrides)
    (h : p.unknownNames overrides ≠ []) :
    p.build overrides = .error (.unknownParameters p.name (p.unknownNames overrides)) := by
  rw [build, arguments, if_neg (mt Keyed.has_iff.1 hfree), if_neg (mt List.isEmpty_iff.1 h)]
  rfl

theorem build_of_known (hfree : reservedName ∉ Keyed.names overrides)
    (h : ∀ name ∈ Keyed.names overrides, name ∈ Keyed.names p.params) :
    p.build overrides = (do pure (p.make (← p.params.mapM (argument overrides)))) := by
  rw [build, arguments, if_neg (mt Keyed.has_iff.1 hfree),
    if_pos (List.isEmpty_iff.2 (unknownNames_eq_nil_iff.2 h))]

/-- A value under a name that is no parameter is refused, with all others of that kind. -/
theorem exists_unknown (hfree : reservedName ∉ Keyed.names overrides)
    (h : ∃ name ∈ Keyed.names overrides, name ∉ Keyed.names p.params) :
    ∃ names, names.Pairwise (fun a b => Sorted.textLt a b = true) ∧
      (∀ name, name ∈ names ↔ name ∈ Keyed.names overrides ∧ name ∉ Keyed.names p.params) ∧
      p.build overrides = .error (.unknownParameters p.name names) := by
  obtain ⟨hincreasing, hlisted⟩ := unknownNames_eq_iff.1 (Eq.refl (p.unknownNames overrides))
  refine ⟨_, hincreasing, hlisted, build_of_unknown hfree fun hnone => ?_⟩
  obtain ⟨name, hname, hother⟩ := h
  exact hother (unknownNames_eq_nil_iff.1 hnone name hname)

/-- Building ends in one of these ways. -/
theorem ends_build (p : Preset α) (overrides : Keyed Json) :
    p.Ends overrides (p.build overrides) := by
  by_cases hfree : reservedName ∈ Keyed.names overrides
  · rw [build_of_reserved hfree]
    exact .reserved hfree
  by_cases hunknown : p.unknownNames overrides = []
  · have hknown := unknownNames_eq_nil_iff.1 hunknown
    rw [build_of_known hfree hknown]
    cases htaken : p.params.mapM (argument overrides) with
    | ok values =>
        refine .made hfree hknown ((Loop.mapM_eq_ok_iff.1 htaken).imp ?_)
        exact fun _ _ => argument_eq_ok_iff.1
    | error fault =>
        obtain ⟨before, ⟨name, dflt⟩, after, taken, hsplit, hearlier, hfails⟩ :=
          Loop.mapM_eq_error_iff.1 htaken
        obtain ⟨s, hgiven, hnothing, rfl⟩ := argument_eq_error_iff.1 hfails
        exact .refused hfree hknown hsplit (hearlier.imp fun _ _ => argument_eq_ok_iff.1) hgiven
          hnothing
  · rw [build_of_unknown hfree hunknown]
    obtain ⟨hincreasing, hlisted⟩ := unknownNames_eq_iff.1 (Eq.refl (p.unknownNames overrides))
    exact .unknown hfree hunknown hincreasing hlisted

/-- And it ends in no other way. -/
theorem Ends.build_eq {r : Except Fault α} (h : p.Ends overrides r) : p.build overrides = r := by
  cases h with
  | reserved given => exact build_of_reserved given
  | unknown free nonempty increasing listed =>
      obtain rfl := unknownNames_eq_iff.2 ⟨increasing, listed⟩
      exact build_of_unknown free nonempty
  | refused free known split earlier given nothing =>
      have hfails := Loop.mapM_eq_error_iff.2 ⟨_, _, _, _, split,
        earlier.imp fun _ _ => argument_eq_ok_iff.2,
        argument_eq_error_iff.2 ⟨_, given, nothing, rfl⟩⟩
      rw [build_of_known free known, hfails]
      rfl
  | made free known taken =>
      have htaken := Loop.mapM_eq_ok_iff.2 (taken.imp fun _ _ => argument_eq_ok_iff.2)
      rw [build_of_known free known, htaken]
      rfl

/-- Names that are no parameters are refused as such unless the reserved name is given. -/
theorem unknownParameters_iff (h : ∃ name ∈ Keyed.names overrides, name ∉ Keyed.names p.params) :
    (∃ names, p.build overrides = .error (.unknownParameters p.name names)) ↔
      reservedName ∉ Keyed.names overrides := by
  constructor
  · rintro ⟨names, hbuild⟩ hreserved
    rw [build_of_reserved hreserved] at hbuild
    cases hbuild
  · intro hfree
    obtain ⟨names, _, _, hbuild⟩ := exists_unknown hfree h
    exact ⟨names, hbuild⟩

/-- **How building a preset ends.** -/
theorem build_eq_iff {r : Except Fault α} : p.build overrides = r ↔ p.Ends overrides r :=
  ⟨fun h => h ▸ ends_build p overrides, Ends.build_eq⟩

end Building

end Preset

end Breadboard
