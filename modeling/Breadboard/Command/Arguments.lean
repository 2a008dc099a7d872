import Breadboard.Text.Digit

/-!
**Reading command lines.**

A command line is a command with words behind it.  A word that begins with a hyphen is an option,
unless it is a hyphen alone, a negative number, or holds a blank; an option may be cut short as long
as it stays unambiguous, and its value stands behind an equals sign or in the next word.  Behind a
word of two hyphens no word is an option.

Main definitions:

* `Flag` — the options that a line can hold;
* `Word` — what a word is;
* `BuildArguments`, `Command` — what is asked for;
* `Command.read` — the command of a line, or the exit code if there is none.
-/

set_option autoImplicit false
set_option relaxedAutoImplicit false

namespace Breadboard

/-- The options that a line can hold. -/
inductive Flag where
  | help
  | param
  | name
  | out
  | removeUnused
  | blueprints
  | keepExisting
  deriving DecidableEq, Inhabited

namespace Flag

def takesValue : Flag → Bool
  | param | name | out | blueprints => true
  | help | removeUnused | keepExisting => false

/-- The options that every line understands. -/
def common : List (String × Flag) := [("-h", help), ("--help", help)]

def build : List (String × Flag) :=
  common ++ [("--param", param), ("--name", name), ("--out", out),
    ("--remove-unused", removeUnused), ("--blueprints", blueprints),
    ("--keep-existing", keepExisting)]

end Flag

/-- What a word of a line is. -/
inductive Word where
  | value (text : String)
  /-- An option, possibly with a value behind an equals sign. -/
  | flag (flag : Flag) (explicit : Option String)
  /-- The option of a single letter with further letters behind it. -/
  | letters (flag : Flag) (rest : String)
  | unknown
  /-- The word behind which no word is an option. -/
  | divider
  deriving DecidableEq, Inhabited

/-- The line was ended with an exit code. -/
abbrev Ended (α : Type) := Except Nat α

namespace Word

/-- The exit code for a line that is not understood. -/
def misuse : Nat := 2

def isDigits (cs : List Char) : Bool := cs.all fun c => (Digit.value? c).isSome

/-- A text without the line feed that it may end with. -/
def withoutFeed (cs : List Char) : List Char :=
  if cs.getLast? = some '\n' then cs.dropLast else cs

/-- A negative number: digits, or digits around a point of which only the last are needed.  A line
feed may follow. -/
def isNegativeNumber (cs : List Char) : Bool :=
  match withoutFeed cs with
  | '-' :: body =>
      let whole := body.takeWhile fun c => c != '.'
      match body.dropWhile fun c => c != '.' with
      | [] => !body.isEmpty && isDigits body
      | _ :: fraction => isDigits whole && !fraction.isEmpty && isDigits fraction
  | _ => false

def splitEquals (s : String) : String × Option String :=
  let head := String.ofList (s.toList.takeWhile fun c => c != '=')
  match s.toList.dropWhile fun c => c != '=' with
  | [] => (head, none)
  | _ :: tail => (head, some (String.ofList tail))

def ofName? (flags : List (String × Flag)) (s : String) : Option Flag :=
  (flags.find? fun f => f.1 == s).map Prod.snd

/-- The options that a word may mean if it is cut short. -/
def abbreviated (flags : List (String × Flag)) (s : String) : List Word :=
  match s.toList with
  | '-' :: '-' :: _ =>
      let (start, explicit) := splitEquals s
      flags.filterMap fun f =>
        if start.toList.isPrefixOf f.1.toList then some (flag f.2 explicit) else none
  | '-' :: c :: rest =>
      flags.filterMap fun f =>
        if f.1 = String.ofList ['-', c] then some (letters f.2 (String.ofList rest))
        else if s.toList.isPrefixOf f.1.toList then some (flag f.2 none)
        else none
  | _ => []

/-- What a word is that has an equals sign and the whole name of an option in front of it. -/
def assigned? (flags : List (String × Flag)) (s : String) : Option Word :=
  match splitEquals s with
  | (_, none) => none
  | (start, some explicit) =>
      (ofName? flags start).map fun f =>
        if start.length = 2 then letters f explicit else flag f (some explicit)

def read (flags : List (String × Flag)) (s : String) : Ended Word :=
  if s.toList.head? ≠ some '-' ∨ s = "-" then .ok (value s)
  else
    match ofName? flags s with
    | some f => .ok (flag f none)
    | none =>
        match assigned? flags s with
        | some word => .ok word
        | none =>
            match abbreviated flags s with
            | [word] => .ok word
            | [] =>
                if isNegativeNumber s.toList ∨ s.toList.contains ' ' then .ok (value s)
                else .ok unknown
            | _ => .error misuse

def readAll (flags : List (String × Flag)) : List String → Ended (List Word)
  | [] => .ok []
  | s :: rest =>
      if s = "--" then .ok (divider :: rest.map value)
      else do
        let word ← read flags s
        let words ← readAll flags rest
        pure (word :: words)

end Word

/-- What the build command is asked for. -/
structure BuildArguments where
  preset : String
  /-- The assignments of parameters; a value of two hyphens leaves none. -/
  params : List (Option String)
  name : Option String
  out : Option String
  removeUnused : Bool
  blueprints : Option String
  keepExisting : Bool
  deriving DecidableEq, Inhabited

/-- What a line asks for. -/
inductive Command where
  | list
  | build (arguments : BuildArguments)
  deriving DecidableEq, Inhabited

/-- What has been read of a line so far. -/
structure LineState where
  value : Option String
  arguments : BuildArguments
  surplus : Bool

namespace LineState

def start : LineState := ⟨none, ⟨"", [], none, none, false, none, false⟩, false⟩

/-- Something was not understood. -/
def withSurplus (s : LineState) : LineState := { s with surplus := true }

/-- An option with a value; a value that was left out takes an earlier one away. -/
def assign (s : LineState) (f : Flag) (v : Option String) : LineState :=
  let a := s.arguments
  match f with
  | .param => { s with arguments := { a with params := a.params ++ [v] } }
  | .name => { s with arguments := { a with name := v } }
  | .out => { s with arguments := { a with out := v } }
  | .blueprints => { s with arguments := { a with blueprints := v } }
  | .help | .removeUnused | .keepExisting => s

/-- The value behind an equals sign; two hyphens stand for none. -/
def attached (v : String) : Option String := if v = "--" then none else some v

/-- An option without a value. -/
def mark (s : LineState) (f : Flag) : LineState :=
  let a := s.arguments
  match f with
  | .removeUnused => { s with arguments := { a with removeUnused := true } }
  | .keepExisting => { s with arguments := { a with keepExisting := true } }
  | .help | .param | .name | .out | .blueprints => s

/-- The words of a line, one after the other.  The line takes one value of its own if `wanted`. -/
def readWords (wanted : Bool) (s : LineState) : List Word → Ended LineState
  | [] => .ok s
  | .value v :: .divider :: rest =>
      if wanted ∧ s.value.isNone then readWords wanted { s with value := some v } rest
      else readWords wanted s.withSurplus rest
  | .value v :: rest =>
      if wanted ∧ s.value.isNone then readWords wanted { s with value := some v } rest
      else readWords wanted s.withSurplus rest
  | .divider :: .value v :: rest =>
      if wanted ∧ s.value.isNone then readWords wanted { s with value := some v } rest
      else readWords wanted s.withSurplus rest
  | .divider :: rest => readWords wanted s.withSurplus rest
  | .unknown :: rest => readWords wanted s.withSurplus rest
  | .letters f v :: rest =>
      if f = .help ∧ v ≠ "" ∧ v.toList.all fun c => c == 'h' then .error 0
      else if f.takesValue then readWords wanted (s.assign f (attached v)) rest
      else .error Word.misuse
  | .flag f (some v) :: rest =>
      if f.takesValue then readWords wanted (s.assign f (attached v)) rest
      else .error Word.misuse
  | .flag f none :: rest =>
      if f = .help then .error 0
      else if f.takesValue then
        match rest with
        | .value v :: rest => readWords wanted (s.assign f (some v)) rest
        | _ => .error Word.misuse
      else readWords wanted (s.mark f) rest

/-- Everything was understood. -/
def finish (s : LineState) : Ended LineState := if s.surplus then .error Word.misuse else .ok s

end LineState

namespace Command

/-- The command of the words behind its name. -/
def readCommand (name : String) (rest : List String) : Ended Command := do
  if name = "list" then
    let words ← Word.readAll Flag.common rest
    let _ ← (← LineState.start.readWords false words).finish
    pure .list
  else if name = "build" then
    let words ← Word.readAll Flag.build rest
    let s ← LineState.start.readWords true words
    match s.value with
    | none => throw Word.misuse
    | some preset => do
        let s ← s.finish
        pure (.build { s.arguments with preset := preset })
  else throw Word.misuse

/-- The options in front of the command; the answer tells whether all of them were understood. -/
def readFront (understood : Bool) : List (Word × String) → Ended (Bool × String × List String)
  | [] => .error Word.misuse
  | (.value _, s) :: rest => .ok (understood, s, rest.map Prod.snd)
  | (.unknown, _) :: rest => readFront false rest
  | (.flag _ none, _) :: _ => .error 0
  | (.letters _ v, _) :: _ =>
      .error (if v ≠ "" ∧ v.toList.all (fun c => c == 'h') then 0 else Word.misuse)
  | (.flag _ (some _), _) :: _ => .error Word.misuse
  | (.divider, _) :: _ => .error Word.misuse

def read (line : List String) : Ended Command := do
  let words ← Word.readAll Flag.common line
  let (understood, name, rest) ← readFront true (words.zip line)
  let command ← readCommand name rest
  if understood then pure command else throw Word.misuse

end Command

end Breadboard
