import Timeshare.CommandLine.Arguments
import Timeshare.CommandLine.Help
import Timeshare.Console.Script
import Timeshare.Storage.Files

/-!
# The program

A run of the program: its arguments are read, the console works through its commands, and what is
left are an exit status, the results, and the complaints together with the log. The status is 0, or
2 when the arguments make no sense or the commands cannot be read to their end.
-/

namespace Timeshare

/-- What a run leaves. -/
structure Outcome where
  status : Nat
  results : String
  diagnostics : String
  deriving DecidableEq, Repr

namespace Settings

/-- What is said before the first command. -/
def opening (s : Settings) : List Output :=
  match s.recordDirectory with
  | none => []
  | some directory => [.log (.recordsUnder directory)]

def console (s : Settings) : Console := { scheduler := Scheduler.init {}, format := s.format }

def ending : Closing → List Output
  | .failed fault => [.complain ("error: " ++ fault.message ++ "\n")]
  | _ => []

def exitStatus : Closing → Nat
  | .failed _ => 2
  | _ => 0

/-- Works through the commands. A script is read as the commands go along, so that a record written
over it is read on as part of it. There is no answer if a command never comes to an end. -/
def run (s : Settings) (files : Storage) (input : List UInt8) : Option (Outcome × Storage) := do
  let start : Session Storage := ⟨s.console, files⟩
  let host := Storage.host s.placement
  let (session, outputs, closing) ←
    match s.script with
    | none => start.run host input
    | some path =>
      match files.locate path with
      | .error fault => some (start, [], .failed fault)
      | .ok l => start.follow host (Storage.blockAt l) (files.extent l)
  let outputs := s.opening ++ outputs ++ ending closing
  return (⟨exitStatus closing, Output.said outputs, Output.diagnostics s.logLimit outputs⟩,
    session.world)

end Settings

def Invocation.run (invocation : Invocation) (files : Storage) (input : List UInt8) :
    Option (Outcome × Storage) :=
  match invocation with
  | start settings => settings.run files input
  | version => some (⟨0, Help.version, ""⟩, files)
  | help => some (⟨0, Help.full, ""⟩, files)
  | summary => some (⟨0, Help.summary, ""⟩, files)
  | misuse m => some (⟨2, "", m.complaint⟩, files)

end Timeshare
