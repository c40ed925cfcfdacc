import Timeshare.Command.Parser
import Timeshare.Host
import Timeshare.Scheduler.Request
import Timeshare.Status.Listing

/-!
# The console

The console reads one command a line and works a scheduler with it. Results and complaints are
written apart, a line or a block each; a line that begins with an unknown word is passed over with a
notice. Listings and reports come as text for people or as JSON.
-/

namespace Timeshare

inductive OutputFormat where
  | json
  | human
  deriving DecidableEq, Repr

namespace OutputFormat

def name : OutputFormat → String
  | json => "json"
  | human => "human"

def ofName? : String → Option OutputFormat
  | "json" => some json
  | "human" => some human
  | _ => none

/-- A value and the text that stands for it among people, in this format, with a line end. -/
def emit (format : OutputFormat) (value : Json) (text : String) : String :=
  match format with
  | json => value.text ++ "\n"
  | human => text ++ "\n"

end OutputFormat

/-- A scheduler and the way to write about it. -/
structure Console where
  scheduler : Scheduler
  format : OutputFormat
  deriving DecidableEq, Repr

/-- What follows a line. -/
inductive Flow where
  | proceed
  | exit
  /-- The line could not be read. -/
  | failed (fault : Fault)
  deriving DecidableEq, Repr

namespace Console

def notFound (id : Int) : Output := .complain ("Process " ++ toString id ++ " not found.\n")

/-- The complaint about a request that was refused. -/
def complaint : Request → List Output
  | .submit .. | .submitImage _ => [.complain "Unable to create new process.\n"]
  | .kill id => [notFound id]
  | .tick | .runAll => []

/-- Makes a request of the scheduler, with a complaint if it is refused. -/
def ask (c : Console) (load : String → Except Fault (List UInt8)) (request : Request) :
    Option (Console × List Output × Flow) :=
  (c.scheduler.perform load request).map fun t =>
    ({ c with scheduler := t.value.2 },
      Event.outputs t.events ++ (if t.value.1.isGranted then [] else complaint request), .proceed)

/-- Carries out a command, given what reading a file yields. There is no answer if the command never
comes to an end. -/
def execute (c : Console) (load : String → Except Fault (List UInt8)) :
    Command → Option (Console × List Output × Flow)
  | .submit user priority budget file =>
    c.ask load (.submit user (Priority.ofIndex priority) (Cycles.nearest budget) file)
  | .list =>
    let statuses := c.scheduler.processes.map Process.status
    let text := c.format.emit (.array (statuses.map Status.json)) (listing statuses)
    some (c, [.say text], .proceed)
  | .inspect id =>
    match c.scheduler.lookup id with
    | .ok p => some (c, [.say (c.format.emit p.status.json p.status.report)], .proceed)
    | .error _ => some (c, [notFound id], .proceed)
  | .kill id => c.ask load (.kill id)
  | .run => c.ask load .tick
  | .runAll => c.ask load .runAll
  | .exit => some (c, [], .exit)

/-- Carries out a line of text. -/
def interpret (c : Console) (load : String → Except Fault (List UInt8)) (line : String) :
    Option (Console × List Output × Flow) :=
  match Command.parse line with
  | .ok none => some (c, [], .proceed)
  | .ok (some command) => c.execute load command
  | .error (.unknownCommand name) => some (c, [.log (.unknownCommand name)], .proceed)
  | .error e => some (c, [.complain (e.message ++ "\n")], .proceed)

/-- The file whose image a line asks for. -/
def wanted? (line : String) : Option String :=
  match Command.parse line with
  | .ok (some (.submit _ _ _ file)) => some file
  | _ => none

end Console

end Timeshare
