import Breadboard.Assembly.Basic
import Breadboard.Blueprint.Check

/-!
**Settings.**

Settings come from the environment.  The names of variables are compared without regard to case,
and of several variables with one name the last counts.

Main definitions:

* `Settings` — the settings;
* `Settings.read` — the settings of an environment;
* `Settings.compileConfig` — the checks of finished assemblies.
-/

set_option autoImplicit false
set_option relaxedAutoImplicit false

namespace Breadboard

/-- The settings of the program. -/
structure Settings where
  environment : String
  logLevel : String
  /-- The folder in which blueprints are saved; empty if they are not. -/
  blueprintsDir : String
  maxConnections : Int
  checkOverflow : Bool
  deriving DecidableEq, Inhabited

namespace Settings

/-- The settings of an environment that says nothing. -/
def standard : Settings where
  environment := "development"
  logLevel := "info"
  blueprintsDir := ""
  maxConnections := CompileConfig.standard.maxConnections
  checkOverflow := CompileConfig.standard.checkOverflow

/-- A letter in lower case; the Kelvin sign is a capital letter like the one of ASCII. -/
def lowerChar (c : Char) : Char := if c.toNat = 0x212a then 'k' else c.toLower

/-- The name of a variable in lower case. -/
def lowerName (name : String) : String := String.ofList (name.toList.map lowerChar)

/-- The variables of an environment under their names in lower case. -/
def byName (environment : List (String × String)) : Keyed Json :=
  environment.foldl (fun known v => Keyed.insert (lowerName v.1) (.str v.2) known) []

def truth : Json → Checked Bool
  | .str s => Checked.truthOfText s
  | _ => Checked.flaw .notBoolean

def read (environment : List (String × String)) : Checked Settings :=
  let known := byName environment
  let texts := Checked.map₂ (fun env level dir => Settings.mk env level dir)
    (Checked.optional Checked.text standard.environment "smlogic_env" known)
    (Checked.optional Checked.text standard.logLevel "smlogic_log_level" known)
  let folder := Checked.map₂ (fun f dir => f dir) texts
    (Checked.optional Checked.text standard.blueprintsDir "smlogic_blueprints_dir" known)
  let limit := Checked.map₂ (fun f n => f n) folder
    (Checked.optional Checked.integer standard.maxConnections "smlogic_max_connections" known)
  Checked.map₂ (fun f b => f b) limit
    (Checked.optional truth standard.checkOverflow "smlogic_check_overflow" known)

def compileConfig (s : Settings) : CompileConfig := ⟨s.maxConnections, s.checkOverflow⟩

end Settings

end Breadboard
