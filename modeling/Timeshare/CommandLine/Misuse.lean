import Timeshare.CommandLine.Options
import Timeshare.Text.Similarity

/-!
# Misuse

The ways in which arguments make no sense. Every one has a message, which may go on with a tip and
with the usage; where an option was not known, the usage shows the options that were named before.
-/

namespace Timeshare

/-- Why arguments make no sense. -/
inductive Misuse where
  /-- A value that nothing waits for. -/
  | surplus (text : String)
  /-- A letter that is no option. -/
  | unknownLetter (letter : Char)
  /-- A long name that is no option, and the settings named before. -/
  | unknownName (name : String) (before : List Setting)
  /-- A value for an option that takes none, and the settings named before. -/
  | unwantedValue (purpose : Purpose) (text : String) (before : List Setting)
  | missingValue (setting : Setting)
  /-- A value that does not suit its setting. -/
  | unsuitable (setting : Setting) (text : String)
  | repeated (setting : Setting)
  deriving DecidableEq, Repr

/-- The values that a setting can have, if they are few. -/
def Setting.values : Setting → List String
  | format => [OutputFormat.json, OutputFormat.human].map OutputFormat.name
  | _ => []

namespace Misuse

def reminder (named : List Purpose) : String := "\n\nUsage: " ++ usageWith named

def tip (text : String) : String := "\n\n  tip: " ++ text

def plainTip (argument : String) : String :=
  tip ("to pass '" ++ argument ++ "' as a value, use '-- " ++ argument ++ "'")

/-- The values that a setting can have, as a part of a message. -/
def choices (setting : Setting) : String :=
  match setting.values with
  | [] => ""
  | values => "\n  [possible values: " ++ ", ".intercalate values ++ "]"

/-- That a setting has no value. -/
def absence (setting : Setting) : String :=
  "a value is required for '" ++ setting.label ++ "' but none was supplied" ++ choices setting

/-- The message about an unknown long name. An option of a similar name is offered, and joins those
that were named before. -/
def unknownNameMessage (name : String) (before : List Setting) : String :=
  let argument := "--" ++ name
  let named := before.map Purpose.set
  let start := "unexpected argument '" ++ argument ++ "' found"
  match Similarity.closest? name (Purpose.named.map Prod.fst) with
  | none => start ++ plainTip argument ++ reminder named
  | some other =>
    let offered := (Purpose.ofName? other).toList.filter (· ∉ named)
    start ++ tip ("a similar argument exists: '--" ++ other ++ "'") ++ reminder (named ++ offered)

/-- The message about a value that does not suit its setting. An empty one is none, but for the
limit of the log. -/
def unsuitableMessage (setting : Setting) (text : String) : String :=
  let start := "invalid value '" ++ text ++ "' for '" ++ setting.label ++ "'"
  if setting = .logLimit then
    start ++ ": attempted to convert a string that doesn't match an existing log level"
  else if text = "" then absence setting
  else
    start ++ choices setting ++
      match Similarity.closest? text setting.values with
      | none => ""
      | some other => tip ("a similar value exists: '" ++ other ++ "'")

def message : Misuse → String
  | surplus text => "unexpected argument '" ++ text ++ "' found" ++ reminder []
  | unknownLetter letter =>
    let argument := "-" ++ letter.toString
    "unexpected argument '" ++ argument ++ "' found" ++ plainTip argument ++ reminder []
  | unknownName name before => unknownNameMessage name before
  | unwantedValue purpose text before =>
    "unexpected value '" ++ text ++ "' for '" ++ purpose.label ++
      "' found; no more were expected\n\n" ++ usageWith (before.map Purpose.set ++ [purpose])
  | missingValue setting => absence setting
  | unsuitable setting text => unsuitableMessage setting text
  | repeated setting =>
    "the argument '" ++ setting.label ++ "' cannot be used multiple times" ++ reminder []

/-- Whether a character is shown: of the control characters below U+0080 only blanks are. -/
def isShown (c : Char) : Bool :=
  (0x20 ≤ c.toNat && c.toNat ≠ 0x7F) || c ∈ ['\t', '\n', '\x0c', '\r']

/-- The complaint that ends the program. -/
def complaint (m : Misuse) : String :=
  let text := "error: " ++ m.message ++ "\n\nFor more information, try '--help'.\n"
  String.ofList (text.toList.filter isShown)

end Misuse

end Timeshare
