import Timeshare.CommandLine.Settings

/-!
# Options

The options that arguments can name. An option has a long name, and some have a letter. One that
sets something takes a value.
-/

namespace Timeshare

/-- What an argument is for. -/
inductive Purpose where
  | set (setting : Setting)
  | version
  | help
  | summary
  deriving DecidableEq, Repr

namespace Purpose

/-- The options with long names. -/
def named : List (String × Purpose) :=
  [("core-dir", set .recordDirectory), ("output", set .format), ("log-level", set .logLimit),
   ("help", help), ("version", version)]

def ofName? (name : String) : Option Purpose := named.lookup name

def ofLetter? : Char → Option Purpose
  | 'V' => some version
  | 'h' => some summary
  | _ => none

end Purpose

/-- A setting as the usage shows it. -/
def Setting.label : Setting → String
  | script => "[SCRIPT]"
  | recordDirectory => "--core-dir <CORE_DIR>"
  | format => "--output <OUTPUT>"
  | logLimit => "--log-level <LOG_LEVEL>"

/-- An argument as the usage shows it. -/
def Purpose.label : Purpose → String
  | set setting => setting.label
  | version => "--version"
  | help => "--help"
  | summary => "-h"

/-- How to call the program, without naming any option or with those that were named. -/
def usageWith (named : List Purpose) : String :=
  if named = [] then "process-simulator [OPTIONS] [SCRIPT]"
  else
    let options := named.filter (· ≠ .set .script)
    let script := if .set .script ∈ named then "<SCRIPT>" else "[SCRIPT]"
    " ".intercalate (["process-simulator"] ++ options.map Purpose.label ++ [script])

end Timeshare
