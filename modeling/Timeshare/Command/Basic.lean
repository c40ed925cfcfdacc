/-!
# Console commands

A command is a verb with its arguments. Every verb has a word, a fixed number of arguments and a
usage line.
-/

namespace Timeshare

/-- What a command asks for. -/
inductive Verb where
  | submit
  | list
  | inspect
  | kill
  | run
  | runAll
  | exit
  deriving DecidableEq, Repr

/-- What an argument has to be: an integer of some width, or any word. -/
inductive Argument where
  | integer (bits : Nat)
  | word
  deriving DecidableEq, Repr

namespace Verb

def ofWord? : String → Option Verb
  | "sub" => some submit
  | "plist" => some list
  | "show" => some inspect
  | "kill" => some kill
  | "run" => some run
  | "runall" => some runAll
  | "exit" => some exit
  | _ => none

def arguments : Verb → List Argument
  | submit => [.integer 32, .integer 64, .integer 64, .word]
  | inspect => [.integer 64]
  | kill => [.integer 64]
  | list => []
  | run => []
  | runAll => []
  | exit => []

def usage : Verb → String
  | submit => "sub <userID> <priority> <max CPU units> <filename>"
  | list => "plist"
  | inspect => "show <PID>"
  | kill => "kill <PID>"
  | run => "run"
  | runAll => "runall"
  | exit => "exit"

end Verb

/-- A verb with the values of its arguments. -/
inductive Command where
  /-- Create a process for a user from an image file. -/
  | submit (user priority budget : Int) (file : String)
  /-- Show the table of processes. -/
  | list
  /-- Show the report on a process. -/
  | inspect (id : Int)
  | kill (id : Int)
  /-- One tick. -/
  | run
  /-- Ticks until nothing is left. -/
  | runAll
  /-- Read no further commands. -/
  | exit
  deriving DecidableEq, Repr

inductive CommandError where
  | usage (verb : Verb)
  | badArguments
  | unknownCommand (name : String)
  deriving DecidableEq, Repr

def CommandError.message : CommandError → String
  | usage verb => "Usage: " ++ verb.usage
  | badArguments => "Bad arguments given: expecting integers"
  | unknownCommand name => "Unknown command: " ++ name

end Timeshare
