import Timeshare.CommandLine.Misuse

/-!
# Command-line arguments

Arguments are taken one after another. One that starts with two dashes names an option, whose value
follows behind an equals sign or is the next argument; one that starts with a single dash is a
cluster of letters, of which the first decides; any other is the value an option waits for or else
the script. Behind `--` every argument is of that last kind.

A setting may be given once. A value of its own argument is looked at only when the next option or
script comes, or the end, and not at all if that one is out of place or not known; an attached value
is looked at right away.
-/

namespace Timeshare

/-- What the arguments ask for. -/
inductive Invocation where
  | start (settings : Settings)
  | version
  | help
  | summary
  | misuse (misuse : Misuse)
  deriving DecidableEq, Repr

namespace Invocation

/-- How far the arguments are read. -/
structure Reading where
  settings : Settings := {}
  /-- The settings that were looked at, in order. -/
  given : List Setting := []
  /-- The setting to be looked at next, and its text once that has come. -/
  pending : Option (Setting × Option String) := none
  /-- Whether `--` has come by. -/
  plain : Bool := false
  deriving DecidableEq, Repr

namespace Reading

/-- Looks at the pending setting. -/
def settle (r : Reading) : Except Invocation Reading :=
  match r.pending with
  | none => .ok r
  | some (setting, none) => .error (.misuse (.missingValue setting))
  | some (setting, some text) =>
    if setting ∈ r.given then .error (.misuse (.repeated setting))
    else match r.settings.assign setting text with
      | none => .error (.misuse (.unsuitable setting text))
      | some settings =>
        .ok { r with settings, given := r.given ++ [setting], pending := none }

/-- The settings named with a text so far, in order; one that is given a second time does not count
at all. -/
def named (r : Reading) : List Setting :=
  match r.pending with
  | some (setting, some _) =>
    if setting ∈ r.given then r.given.filter (· ≠ setting) else r.given ++ [setting]
  | _ => r.given

def hasScript (r : Reading) : Bool :=
  .script ∈ r.given || r.pending.any fun (setting, _) => setting = .script

def takeValue (r : Reading) (text : String) : Except Invocation Reading := do
  if r.hasScript then .error (.misuse (.surplus text))
  let r ← r.settle
  return { r with pending := some (.script, some text) }

/-- Takes an option that asks for something to be printed. -/
def takeRequest (r : Reading) (invocation : Invocation) : Except Invocation Reading := do
  let _ ← r.settle
  .error invocation

/-- Takes an option with the value attached to it, if there is one. -/
def takeOption (r : Reading) (purpose : Purpose) (value : Option String) :
    Except Invocation Reading :=
  match purpose, value with
  | .set setting, none => do
    let r ← r.settle
    return { r with pending := some (setting, none) }
  | .set setting, some text => do
    let r ← r.settle
    settle { r with pending := some (setting, some text) }
  | purpose, some text => .error (.misuse (.unwantedValue purpose text r.given))
  | .version, none => r.takeRequest .version
  | .help, none => r.takeRequest .help
  | .summary, none => r.takeRequest .summary

def take (r : Reading) (argument : String) : Except Invocation Reading :=
  if r.plain then r.takeValue argument
  else match argument.toList with
    | ['-', '-'] => .ok { r with plain := true }
    | '-' :: '-' :: cs =>
      let name := String.ofList (cs.takeWhile (· ≠ '='))
      let value :=
        match cs.dropWhile (· ≠ '=') with
        | [] => none
        | _ :: text => some (String.ofList text)
      match Purpose.ofName? name with
      | some purpose => r.takeOption purpose value
      | none => .error (.misuse (.unknownName name r.named))
    | '-' :: c :: _ =>
      match Purpose.ofLetter? c with
      | some purpose => r.takeOption purpose none
      | none => .error (.misuse (.unknownLetter c))
    | _ =>
      match r.pending with
      | some (setting, none) => .ok { r with pending := some (setting, some argument) }
      | _ => r.takeValue argument

end Reading

def ofArguments (arguments : List String) : Invocation :=
  match arguments.foldlM Reading.take {} >>= Reading.settle with
  | .ok r => .start r.settings
  | .error invocation => invocation

end Invocation

end Timeshare
