import Timeshare.Console.Basic
import Timeshare.Storage.Placement

/-!
# Settings

What a run of the program can be told: where its commands come from, where records go, how results
are written and how much is logged. Every setting is given as a text, and not every text suits.
-/

namespace Timeshare

inductive Setting where
  | script
  | recordDirectory
  | format
  | logLimit
  deriving DecidableEq, Repr

/-- What a run of the program is told. -/
structure Settings where
  /-- The file with the commands; without one they come from the standard input. -/
  script : Option String := none
  /-- The directory for records; without one they go beside the images. -/
  recordDirectory : Option String := none
  format : OutputFormat := .human
  /-- The level up to which notices are logged. -/
  logLimit : Option Level := some .warn
  deriving DecidableEq, Repr

namespace Settings

/-- The limit of a log by name, in capitals or not. -/
def logLimitOfName? (name : String) : Option (Option Level) :=
  let name := String.ofList (name.toList.map Char.toLower)
  if name = "off" then some none else (Level.ofName? name).map some

/-- The settings with one of them given as a text, if that suits. A file or directory has to have a
name. -/
def assign (s : Settings) (setting : Setting) (text : String) : Option Settings :=
  match setting with
  | .script => if text = "" then none else some { s with script := some text }
  | .recordDirectory => if text = "" then none else some { s with recordDirectory := some text }
  | .format => (OutputFormat.ofName? text).map fun format => { s with format }
  | .logLimit => (logLimitOfName? text).map fun logLimit => { s with logLimit }

def placement (s : Settings) : Placement :=
  match s.recordDirectory with
  | none => .besideImage
  | some directory => .under directory

end Settings

end Timeshare
