import Breadboard.Command.Run
import Breadboard.Proofs.Preset.Overrides

/-!
**Assignments on the command line.**

A line assigns values to the parameters of a preset by words of the form `key=value`, each behind
an option or joined to it.  All words are read before the preset is built.  The first word with an
empty key is reported, and keys that are no parameters are reported only if there is none.  In
either case nothing has been shown or written, and the exit code is 1.

The exception is a value under the name of the preset itself.  If no key is empty, it stops the
program, and nothing is reported.

Main definitions:

* `Command.assignment` — a key with a value as a text;
* `Command.early` — what the program does about a failure before anything is shown;
* `Command.Refuses` — **how a line ends that assigns a value to a key that is no parameter**.

Main results:

* `Command.read_build` — the lines that ask for a preset and assign values;
* `Command.run_eq_of_error` — a failure before anything is shown changes no file;
* `Command.run_refuses` — such a line ends as `Command.Refuses` says, and no file changes;
* `Command.Refuses.code_eq_one_iff` — with which exit code;
* `Command.overrides_checked` — **which values are refused, and what the command line makes of it**;
* `Command.reserved_not_refused` — **the name that is not refused**.
-/

set_option autoImplicit false
set_option relaxedAutoImplicit false

namespace Breadboard

namespace Word

/-! ### Words that give texts to the option for parameters -/

theorem splitEquals_append {head : String} (h : '=' ∉ head.toList) (tail : String) :
    splitEquals (head ++ "=" ++ tail) = (head, some tail) := by
  have keep : ∀ c ∈ head.toList, (c != '=') = true := by
    intro c hc
    simp only [bne_iff_ne, ne_eq]
    rintro rfl
    exact h hc
  simp [splitEquals, List.takeWhile_append_of_pos keep, List.dropWhile_append_of_pos keep,
    List.append_assoc]

theorem read_value {flags : List (String × Flag)} {s : String} (h : s.toList.head? ≠ some '-') :
    read flags s = .ok (.value s) := by
  rw [read, if_pos (.inl h)]

/-- The word that gives a text to the option for parameters. -/
def ofParam (text : String) : String := "--param" ++ "=" ++ text

theorem splitEquals_ofParam (text : String) :
    splitEquals (ofParam text) = ("--param", some text) :=
  splitEquals_append (by decide) text

theorem ofParam_ne {s : String} (h : '=' ∉ s.toList) (text : String) : s ≠ ofParam text := by
  rintro rfl
  exact h (by simp [ofParam])

/-- Such a word begins like an option. -/
theorem not_value_ofParam (text : String) :
    ¬ ((ofParam text).toList.head? ≠ some '-' ∨ ofParam text = "-") := by
  rintro (hhead | hhyphen)
  · exact hhead (by simp [ofParam])
  · exact ofParam_ne (by decide) text hhyphen.symm

/-- It is not the whole name of an option. -/
theorem ofName?_ofParam {flags : List (String × Flag)} (h : ∀ f ∈ flags, '=' ∉ f.1.toList)
    (text : String) : ofName? flags (ofParam text) = none := by
  rw [ofName?, Option.map_eq_none_iff, List.find?_eq_none]
  intro f hf heq
  exact ofParam_ne (h f hf) text (beq_iff_eq.1 heq)

theorem read_ofParam (text : String) :
    read Flag.build (ofParam text) = .ok (.flag .param (some text)) := by
  have hassigned : assigned? Flag.build (ofParam text) = some (.flag .param (some text)) := by
    rw [assigned?, splitEquals_ofParam]
    rfl
  rw [read, if_neg (not_value_ofParam text), ofName?_ofParam (by decide), hassigned]

/-- Where the option is not known, the word is unknown or, if it holds a blank, a value. -/
theorem exists_read_ofParam (text : String) :
    ∃ word, read Flag.common (ofParam text) = .ok word := by
  have hassigned : assigned? Flag.common (ofParam text) = none := by
    rw [assigned?, splitEquals_ofParam]
    rfl
  have habbreviated : abbreviated Flag.common (ofParam text) = [] := by
    have hlist : (ofParam text).toList = '-' :: '-' :: ("param".toList ++ '=' :: text.toList) := by
      simp [ofParam]
    rw [abbreviated, hlist]
    simp only [splitEquals_ofParam]
    rfl
  rw [read, if_neg (not_value_ofParam text), ofName?_ofParam (by decide), hassigned, habbreviated]
  dsimp only
  split
  · exact ⟨_, rfl⟩
  · exact ⟨_, rfl⟩

/-- Words that give texts to the option for parameters. -/
theorem readAll_ofParam (texts : List String) : readAll Flag.build (texts.map ofParam)
    = .ok (texts.map fun text => .flag .param (some text)) := by
  induction texts with
  | nil => rfl
  | cons text rest ih =>
      rw [List.map_cons, readAll, if_neg (ofParam_ne (by decide) text).symm, read_ofParam, ih]
      rfl

theorem exists_readAll_ofParam (texts : List String) : ∃ words,
    readAll Flag.common (texts.map ofParam) = .ok words ∧ words.length = texts.length := by
  induction texts with
  | nil => exact ⟨[], rfl, rfl⟩
  | cons text rest ih =>
      obtain ⟨word, hword⟩ := exists_read_ofParam text
      obtain ⟨words, hwords, hlength⟩ := ih
      rw [List.map_cons, readAll, if_neg (ofParam_ne (by decide) text).symm, hword, hwords]
      exact ⟨word :: words, rfl, congrArg (· + 1) hlength⟩

/-- A word that is no option, in front of others. -/
theorem readAll_value {flags : List (String × Flag)} {s : String} (h : s.toList.head? ≠ some '-')
    (rest : List String) : readAll flags (s :: rest)
      = (do let words ← readAll flags rest; pure (.value s :: words)) := by
  have hdivider : s ≠ "--" := by
    rintro rfl
    exact h rfl
  rw [readAll, if_neg hdivider, read_value h]
  rfl

end Word

namespace LineState

/-- Texts for parameters are added one after the other. -/
theorem readWords_params {texts : List String} (h : ∀ text ∈ texts, text ≠ "--") (s : LineState) :
    s.readWords true (texts.map fun text => .flag .param (some text))
      = .ok { s with arguments :=
          { s.arguments with params := s.arguments.params ++ texts.map some } } := by
  induction texts generalizing s with
  | nil => simp [readWords]
  | cons text rest ih =>
      rw [List.forall_mem_cons] at h
      have hstep : s.readWords true
            (.flag .param (some text) :: rest.map fun text => .flag .param (some text))
          = (s.assign .param (some text)).readWords true
              (rest.map fun text => .flag .param (some text)) := by
        rw [readWords, attached, if_neg h.1]
        rfl
      rw [List.map_cons, hstep, ih h.2]
      simp [assign]

/-- In front of them the line has its value. -/
theorem readWords_value_params (preset : String) (texts : List String) :
    start.readWords true (.value preset :: texts.map fun text => .flag .param (some text))
      = { start with value := some preset }.readWords true
          (texts.map fun text => .flag .param (some text)) := by
  cases texts <;> rfl

end LineState

namespace Command

/-- **A line that asks for a preset and assigns values.** -/
theorem read_build {preset : String} (hpreset : preset.toList.head? ≠ some '-')
    {texts : List String} (h : ∀ text ∈ texts, text ≠ "--") :
    read ("build" :: preset :: texts.map Word.ofParam)
      = .ok (.build ⟨preset, texts.map some, none, none, false, none, false⟩) := by
  -- the line is first read with the common options only, to find the command; what its other words
  -- are by then does not matter
  obtain ⟨words, hwords, hlength⟩ := Word.exists_readAll_ofParam texts
  have hfront : Word.readAll Flag.common ("build" :: preset :: texts.map Word.ofParam)
      = .ok (.value "build" :: .value preset :: words) := by
    rw [Word.readAll_value (by decide), Word.readAll_value hpreset, hwords]
    rfl
  have hrest : ((words.zip (texts.map Word.ofParam)).map Prod.snd) = texts.map Word.ofParam :=
    List.map_snd_zip (by rw [List.length_map, hlength])
  have hname : readFront true ((Word.value "build" :: .value preset :: words).zip
      ("build" :: preset :: texts.map Word.ofParam))
        = .ok (true, "build", preset :: texts.map Word.ofParam) := by
    simp only [List.zip_cons_cons, readFront, List.map_cons, hrest]
  have hback : Word.readAll Flag.build (preset :: texts.map Word.ofParam)
      = .ok (.value preset :: texts.map fun text => .flag .param (some text)) := by
    rw [Word.readAll_value hpreset, Word.readAll_ofParam]
    rfl
  have hcommand : readCommand "build" (preset :: texts.map Word.ofParam)
      = .ok (.build ⟨preset, texts.map some, none, none, false, none, false⟩) := by
    rw [readCommand, if_neg (by decide), if_pos rfl, hback]
    show (LineState.start.readWords true _ >>= _) = _
    rw [LineState.readWords_value_params, LineState.readWords_params h]
    rfl
  simp only [read, hfront, bind, Except.bind, hname, hcommand]
  rfl

/-! ### Values that assignments give -/

/-- A key with a value as a text. -/
def assignment (entry : String × String) : String := entry.1 ++ "=" ++ entry.2

/-- What one word adds to the values that were read. -/
def readParam (params : Keyed Json) (word : Option String) : Except Fault (Keyed Json) :=
  match word with
  | none => .error .noSuchOperation
  | some word =>
      match Word.splitEquals word with
      | (key, some value) =>
          if key = "" then .error (.badAssignment word)
          else .ok (Keyed.insert key (.str value) params)
      | (_, none) => .error (.badAssignment word)

theorem readParams_eq (words : List (Option String)) :
    readParams words = words.foldlM readParam [] := rfl

theorem readParam_assignment {entry : String × String} (h : '=' ∉ entry.1.toList)
    (params : Keyed Json) : readParam params (some (assignment entry)) =
      if entry.1 = "" then .error (.badAssignment ("=" ++ entry.2))
      else .ok (Keyed.insert entry.1 (.str entry.2) params) := by
  obtain ⟨key, value⟩ := entry
  simp only [readParam, assignment, Word.splitEquals_append h value]
  by_cases hkey : key = ""
  · rw [if_pos hkey, if_pos hkey, hkey]
    rfl
  · rw [if_neg hkey, if_neg hkey]

/-- The values that assignments give; the last value of a key counts. -/
def assigned (assignments : List (String × String)) (params : Keyed Json) : Keyed Json :=
  assignments.foldl (fun params entry => Keyed.insert entry.1 (.str entry.2) params) params

theorem mem_names_assigned {assignments : List (String × String)} {params : Keyed Json}
    {name : String} : name ∈ Keyed.names (assigned assignments params) ↔
      name ∈ Keyed.names assignments ∨ name ∈ Keyed.names params := by
  induction assignments generalizing params with
  | nil => simp [assigned, Keyed.names]
  | cons entry rest ih =>
      have hstep : name ∈ Keyed.names (assigned (entry :: rest) params) ↔
          name ∈ Keyed.names rest ∨
            name ∈ Keyed.names (Keyed.insert entry.1 (.str entry.2) params) := ih
      have hnames : name ∈ Keyed.names (entry :: rest) ↔
          name = entry.1 ∨ name ∈ Keyed.names rest := List.mem_cons
      rw [hstep, Keyed.mem_names_insert, hnames]
      exact or_left_comm.trans or_assoc.symm

theorem foldlM_readParam {assignments : List (String × String)}
    (h : ∀ entry ∈ assignments, '=' ∉ entry.1.toList) (hnamed : "" ∉ Keyed.names assignments)
    (params : Keyed Json) :
    (assignments.map fun entry => some (assignment entry)).foldlM readParam params
      = .ok (assigned assignments params) := by
  induction assignments generalizing params with
  | nil => rfl
  | cons entry rest ih =>
      rw [List.forall_mem_cons] at h
      obtain ⟨hkey, hrest⟩ := not_or.1 (mt List.mem_cons.2 hnamed)
      rw [List.map_cons, List.foldlM_cons, readParam_assignment h.1, if_neg (Ne.symm hkey),
        Fault.ok_bind, ih h.2 hrest]
      rfl

/-- Assignments are read if no key is empty. -/
theorem readParams_of_named {assignments : List (String × String)}
    (h : ∀ entry ∈ assignments, '=' ∉ entry.1.toList) (hnamed : "" ∉ Keyed.names assignments) :
    readParams (assignments.map fun entry => some (assignment entry))
      = .ok (assigned assignments []) :=
  foldlM_readParam h hnamed []

/-- The first assignment with an empty key is refused. -/
theorem readParams_of_unnamed {before after : List (String × String)} {value : String}
    (h : ∀ entry ∈ before, '=' ∉ entry.1.toList) (hnamed : "" ∉ Keyed.names before) :
    readParams ((before ++ ("", value) :: after).map fun entry => some (assignment entry))
      = .error (.badAssignment ("=" ++ value)) := by
  rw [readParams_eq, List.map_append, List.foldlM_append, foldlM_readParam h hnamed, Fault.ok_bind,
    List.map_cons, List.foldlM_cons, readParam_assignment (by simp), if_pos rfl]
  rfl

/-! ### Failures before anything is shown -/

section Lines

variable {settings : Settings} {palette : Palette} {elapsed : Nat} {line : List String}
  {a : BuildArguments} {preset : Preset Recipe} {disk : Disk}

/-- What the program does about a failure before anything is shown. -/
def early (fault : Fault) : Outcome :=
  if fault.isReported then .finished ⟨1, [], [], [.commandFailed "build" fault]⟩
  else .failed fault [] []

/-- **A failure before anything is shown changes no file.** -/
theorem run_eq_of_error {fault : Fault} (hline : read line = .ok (.build a))
    (hpreset : Registry.get Preset.catalog a.preset = .ok preset)
    (h : (readParams a.params >>= preset.build) = .error fault) :
    run settings palette elapsed line disk = (early fault, disk) := by
  have hsteps : buildSteps settings palette elapsed preset a ⟨disk, [], []⟩
      = .error fault ⟨disk, [], []⟩ := by
    rcases Fault.bind_eq_error_iff.1 h with hread | ⟨params, hread, hbuild⟩
    · rw [buildSteps, hread]
      rfl
    · have hanswer : Session.answer (.ok params) ⟨disk, [], []⟩ = .ok params ⟨disk, [], []⟩ := rfl
      rw [buildSteps, hread, Loop.bind_of_ok hanswer, hbuild]
      rfl
  simp only [run, hline, runBuild, hpreset, hsteps, early]
  split <;> rfl

/-- How a line ends that assigns values to keys of which one is no parameter: the first empty key is
reported; else a value under the reserved name is an error of the program; else all keys that are no
parameters are reported, in increasing order. -/
inductive Refuses (preset : Preset Recipe) (assignments : List (String × String)) :
    Outcome → Prop where
  | unnamed {before after : List (String × String)} {value : String}
      (split : assignments = before ++ ("", value) :: after) (earlier : "" ∉ Keyed.names before) :
      Refuses preset assignments
        (.finished ⟨1, [], [], [.commandFailed "build" (.badAssignment ("=" ++ value))]⟩)
  | reserved (named : "" ∉ Keyed.names assignments)
      (given : Preset.reservedName ∈ Keyed.names assignments) :
      Refuses preset assignments (.failed .wrongType [] [])
  | unknown {names : List String} (named : "" ∉ Keyed.names assignments)
      (free : Preset.reservedName ∉ Keyed.names assignments)
      (increasing : names.Pairwise fun a b => Sorted.textLt a b = true)
      (listed : ∀ name, name ∈ names ↔
        name ∈ Keyed.names assignments ∧ name ∉ Keyed.names preset.params) :
      Refuses preset assignments
        (.finished ⟨1, [], [], [.commandFailed "build" (.unknownParameters preset.name names)]⟩)

/-- Such a line ends with the exit code 1 unless no key is empty and the reserved name is among
them. -/
theorem Refuses.code_eq_one_iff {assignments : List (String × String)} {outcome : Outcome}
    (h : Refuses preset assignments outcome) :
    (∃ report, outcome = .finished report ∧ report.code = 1) ↔
      "" ∈ Keyed.names assignments ∨ Preset.reservedName ∉ Keyed.names assignments := by
  cases h with
  | unnamed split earlier =>
      have hempty : "" ∈ Keyed.names assignments := split ▸ Keyed.mem_names_split _ _ _ _
      exact ⟨fun _ => .inl hempty, fun _ => ⟨_, rfl, rfl⟩⟩
  | reserved named given =>
      constructor
      · rintro ⟨report, hreport, _⟩
        cases hreport
      · rintro (hempty | hfree)
        · exact absurd hempty named
        · exact absurd given hfree
  | unknown named free increasing listed => exact ⟨fun _ => .inr free, fun _ => ⟨_, rfl, rfl⟩⟩

/-- **A line that assigns a value to a key that is no parameter is not carried out**, and no file
changes. -/
theorem run_refuses {assignments : List (String × String)}
    (hline : read line = .ok (.build a))
    (hpreset : Registry.get Preset.catalog a.preset = .ok preset)
    (hparams : a.params = assignments.map fun entry => some (assignment entry))
    (hkeys : ∀ entry ∈ assignments, '=' ∉ entry.1.toList)
    (hother : ∃ key ∈ Keyed.names assignments, key ∉ Keyed.names preset.params) :
    ∃ outcome, Refuses preset assignments outcome
      ∧ run settings palette elapsed line disk = (outcome, disk) := by
  by_cases hempty : "" ∈ Keyed.names assignments
  · -- the first empty key is reported, whatever the other keys are
    obtain ⟨before, value, after, rfl, hbefore⟩ := Keyed.exists_first hempty
    have hread := @readParams_of_unnamed before after value
      (fun entry hentry => hkeys entry (List.mem_append_left _ hentry)) hbefore
    rw [← hparams] at hread
    exact ⟨_, .unnamed rfl hbefore,
      run_eq_of_error hline hpreset (Fault.bind_eq_error_iff.2 (.inl hread))⟩
  have hread := readParams_of_named hkeys hempty
  rw [← hparams] at hread
  have hnames (name : String) : name ∈ Keyed.names (assigned assignments []) ↔
      name ∈ Keyed.names assignments := by
    rw [mem_names_assigned]
    exact or_iff_left List.not_mem_nil
  by_cases hreserved : Preset.reservedName ∈ Keyed.names assignments
  · have hbuild := Preset.build_of_reserved (p := preset) ((hnames _).2 hreserved)
    exact ⟨_, .reserved hempty hreserved,
      run_eq_of_error hline hpreset (Fault.bind_eq_error_iff.2 (.inr ⟨_, hread, hbuild⟩))⟩
  · simp only [← hnames] at hreserved hother
    obtain ⟨names, hincreasing, hlisted, hbuild⟩ := Preset.exists_unknown hreserved hother
    simp only [hnames] at hreserved hlisted
    exact ⟨_, .unknown hempty hreserved hincreasing hlisted,
      run_eq_of_error hline hpreset (Fault.bind_eq_error_iff.2 (.inr ⟨_, hread, hbuild⟩))⟩

end Lines

/-- **Which values are refused, and what the command line makes of it.**  Building any preset of any
values ends as described, and if a name is no parameter, such names are refused exactly if the
reserved name is not given.  A converted text has the type of the default, and a text that cannot be
converted is reported unless the default has no type.  A line that asks for a preset and assigns
values to keys, one of which is no parameter, changes no file; it ends with the exit code 1 and a
report, unless no key is empty and the reserved name is among them. -/
theorem overrides_checked {α : Type} (p : Preset α) (overrides : Keyed Json) :
    (∀ r, p.build overrides = r ↔ p.Ends overrides r) ∧
    ((∃ name ∈ Keyed.names overrides, name ∉ Keyed.names p.params) →
      ((∃ names, p.build overrides = .error (.unknownParameters p.name names)) ↔
        Preset.reservedName ∉ Keyed.names overrides)) ∧
    (∀ (name s : String) (dflt : Json),
      (∀ v, Parameter.Converts dflt s v → v.kindName = dflt.kindName) ∧
      ((Parameter.refusal name s dflt).isReported = true ↔ dflt ≠ .null)) ∧
    ∀ (settings : Settings) (palette : Palette) (elapsed : Nat) (line : List String) (disk : Disk)
      (a : BuildArguments) (preset : Preset Recipe) (assignments : List (String × String)),
      read line = .ok (.build a) → Registry.get Preset.catalog a.preset = .ok preset →
      (a.params = assignments.map fun entry => some (assignment entry)) →
      (∀ entry ∈ assignments, '=' ∉ entry.1.toList) →
      (∃ key ∈ Keyed.names assignments, key ∉ Keyed.names preset.params) →
      ∃ outcome, Refuses preset assignments outcome ∧
        run settings palette elapsed line disk = (outcome, disk) ∧
        ((∃ report, outcome = .finished report ∧ report.code = 1) ↔
          "" ∈ Keyed.names assignments ∨ Preset.reservedName ∉ Keyed.names assignments) := by
  refine ⟨fun r => Preset.build_eq_iff, Preset.unknownParameters_iff, fun name s dflt => ?_, ?_⟩
  · exact ⟨fun v => Parameter.Converts.kindName_eq, Parameter.isReported_refusal⟩
  · intro settings palette elapsed line disk a preset assignments hline hpreset hparams hkeys hother
    obtain ⟨outcome, hrefuses, hrun⟩ := run_refuses hline hpreset hparams hkeys hother
    exact ⟨outcome, hrefuses, hrun, hrefuses.code_eq_one_iff⟩

theorem overrides_checked_adder :
    (∃ names, Preset.adder.build [("width", .int 3)] = .error (.unknownParameters "adder" names)) ∧
    run .standard .standard 0
        ["build", "adder", "--param=width=3", "--param=word_size=4", "--param=depth="] ⟨[], 0⟩
      = (.finished ⟨1, [], [],
          [.commandFailed "build" (.unknownParameters "adder" ["depth", "width"])]⟩, ⟨[], 0⟩) := by
  let assignments := [("width", "3"), ("word_size", "4"), ("depth", "")]
  have hline : ["build", "adder", "--param=width=3", "--param=word_size=4", "--param=depth="]
      = "build" :: "adder" :: (assignments.map assignment).map Word.ofParam := rfl
  have hpreset : "adder".toList.head? ≠ some '-' := by decide
  have hread := read_build hpreset (by decide : ∀ text ∈ assignments.map assignment, text ≠ "--")
  obtain ⟨_, hrefused, _, hlines⟩ := overrides_checked Preset.adder [("width", .int 3)]
  refine ⟨(hrefused ⟨"width", by decide, by decide⟩).2 (by decide), ?_⟩
  obtain ⟨outcome, hrefuses, hrun, _⟩ := hlines .standard .standard 0 _ ⟨[], 0⟩ _ Preset.adder
    assignments hread rfl rfl (by decide) ⟨"width", by decide, by decide⟩
  rw [hline, hrun]
  cases hrefuses with
  | unnamed split =>
      have hempty : "" ∈ Keyed.names assignments := split ▸ Keyed.mem_names_split _ _ _ _
      exact absurd hempty (by decide)
  | reserved _ given => exact absurd given (by decide)
  | @unknown names _ _ increasing listed =>
      have hnames : names = ["depth", "width"] := by
        refine Sorted.eq_of_mem_iff Sorted.isOrder_textLt increasing (by decide) fun name => ?_
        rw [listed]
        simp only [assignments, Keyed.names, Preset.adder, Preset.wordParams, List.map_cons,
          List.map_nil, List.mem_cons, List.not_mem_nil, or_false]
        constructor
        · rintro ⟨rfl | rfl | rfl, hother⟩
          · exact .inr rfl
          · exact absurd rfl hother
          · exact .inl rfl
        · rintro (rfl | rfl) <;> decide
      rw [hnames]
      rfl

/-- **The name that is not refused.**  A value under the name of the preset itself is no refused
parameter but an error of the program, which the command line does not report. -/
theorem reserved_not_refused :
    "self" ∉ Keyed.names Preset.adder.params ∧
    Preset.adder.build [("self", .str "1")] = .error .wrongType ∧
    run .standard .standard 0 ["build", "adder", "--param=self=1"] ⟨[], 0⟩
      = (.failed .wrongType [] [], ⟨[], 0⟩) := by
  have hread : read ["build", "adder", "--param=self=1"]
      = .ok (.build ⟨"adder", [some "self=1"], none, none, false, none, false⟩) :=
    @read_build "adder" (by decide) ["self=1"] (by decide)
  have hpreset : Registry.get Preset.catalog "adder" = .ok Preset.adder := rfl
  have hreserved : Preset.adder.build [("self", .str "1")] = .error .wrongType :=
    Preset.build_of_reserved (by decide)
  have hgiven : readParams [some "self=1"] = .ok [("self", .str "1")] :=
    @readParams_of_named [("self", "1")] (by decide) (by decide)
  refine ⟨by decide, hreserved, ?_⟩
  exact run_eq_of_error hread hpreset (Fault.bind_eq_error_iff.2 (.inr ⟨_, hgiven, hreserved⟩))

end Command

end Breadboard
