import Timeshare.Command.Basic
import Timeshare.Text.Blank
import Timeshare.Text.Integer

/-!
# Reading a command line

The first word of a line names the verb. As many further words as the verb has arguments are taken,
one after another, and fill the arguments in order; words beyond that play no part. The word `--` is
no value itself and makes values of all words after it. Before it, a word that starts with a dash is
a flag, and no flag is known; but a dash alone is a value, and so is what looks like a negative
number where an integer is due. The value of an argument is looked at when the value after it comes
up or the words end, so a flag right behind a bad value is noticed before the bad value is.
-/

namespace Timeshare

namespace Command

inductive Value where
  | integer (n : Int)
  | word (text : String)
  deriving DecidableEq, Repr

/-- The value that a word gives to an argument, if it suits. -/
def Value.ofWord? : Argument → String → Option Value
  | .integer bits, text => (Integer.readWithin? bits text).map .integer
  | .word, text => some (.word text)

/-- Whether a word counts as a flag when the given arguments are still to be filled. -/
def isFlag (due : List Argument) (word : String) : Bool :=
  match word.toList with
  | '-' :: '-' :: _ => true
  | '-' :: c :: cs =>
    match due with
    | .integer _ :: _ => !Integer.looksNumeric (c :: cs)
    | _ => true
  | _ => false

/-- How far the arguments of a verb are filled. -/
structure Filling where
  /-- Whether `--` has come by. -/
  plain : Bool := false
  /-- The last word taken as a value, not looked at yet, and its argument. -/
  pending : Option (Argument × String) := none
  /-- The arguments still to be filled. -/
  due : List Argument
  /-- The values looked at, in order. -/
  values : List Value := []
  deriving DecidableEq, Repr

namespace Filling

/-- Looks at the pending value. -/
def settle (f : Filling) : Except CommandError (List Value) :=
  match f.pending with
  | none => .ok f.values
  | some (argument, word) =>
    match Value.ofWord? argument word with
    | none => .error .badArguments
    | some value => .ok (f.values ++ [value])

/-- Takes one word. -/
def take (verb : Verb) (f : Filling) (word : String) : Except CommandError Filling :=
  if !f.plain && word = "--" then .ok { f with plain := true }
  else if !f.plain && isFlag f.due word then .error (.usage verb)
  else
    match f.due with
    | [] => .error (.usage verb)
    | argument :: rest => do
      let values ← f.settle
      return { f with pending := some (argument, word), due := rest, values }

/-- The values once the words have ended. -/
def finish (verb : Verb) (f : Filling) : Except CommandError (List Value) := do
  let values ← f.settle
  if f.due = [] then return values else .error (.usage verb)

end Filling

def ofValues (verb : Verb) (values : List Value) : Except CommandError Command :=
  match verb, values with
  | .submit, [.integer user, .integer priority, .integer budget, .word file] =>
    .ok (.submit user priority budget file)
  | .list, [] => .ok .list
  | .inspect, [.integer id] => .ok (.inspect id)
  | .kill, [.integer id] => .ok (.kill id)
  | .run, [] => .ok .run
  | .runAll, [] => .ok .runAll
  | .exit, [] => .ok .exit
  | _, _ => .error (.usage verb)

def ofWords (verb : Verb) (words : List String) : Except CommandError Command := do
  let start : Filling := { due := verb.arguments }
  let filling ← (words.take verb.arguments.length).foldlM (Filling.take verb) start
  ofValues verb (← filling.finish verb)

/-- The command of a line; a line without words has none. -/
def parse (line : String) : Except CommandError (Option Command) :=
  match words line with
  | [] => .ok none
  | name :: rest =>
    match Verb.ofWord? name with
    | none => .error (.unknownCommand name)
    | some verb => (ofWords verb rest).map some

end Command

end Timeshare
