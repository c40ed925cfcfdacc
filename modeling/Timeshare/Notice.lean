import Timeshare.Scheduler.Event

/-!
# Notices

A notice is a line for the log. It has a level, from errors to traces, and a part of the program it
comes from; a log shows the notices up to a chosen level.
-/

namespace Timeshare

/-- The weight of a notice, heaviest first. -/
inductive Level where
  | error
  | warn
  | info
  | debug
  | trace
  deriving DecidableEq, Repr

namespace Level

def rank : Level → Nat
  | error => 1
  | warn => 2
  | info => 3
  | debug => 4
  | trace => 5

def name : Level → String
  | error => "ERROR"
  | warn => "WARN"
  | info => "INFO"
  | debug => "DEBUG"
  | trace => "TRACE"

def ofName? : String → Option Level
  | "error" => some error
  | "warn" => some warn
  | "info" => some info
  | "debug" => some debug
  | "trace" => some trace
  | _ => none

/-- Whether a log up to the level `limit` shows notices of this level; no limit shows none. -/
def shownBy (level : Level) (limit : Option Level) : Bool :=
  limit.any fun l => level.rank ≤ l.rank

end Level

/-- The part of the program that a notice comes from. -/
inductive Origin where
  | program
  | console
  | scheduler
  | admission
  | dispatch
  | processor
  deriving DecidableEq, Repr

def Origin.path : Origin → String
  | program => "process_simulator"
  | console => "process_simulator::shell"
  | scheduler => "process_simulator::kernel::scheduler"
  | admission => "process_simulator::kernel::long_term_scheduler"
  | dispatch => "process_simulator::kernel::short_term_scheduler"
  | processor => "process_simulator::kernel::cpu"

inductive Notice where
  /-- Something took place in the scheduler. -/
  | event (event : Event)
  | recordLost (id : ProcessId) (fault : Fault)
  | unknownCommand (name : String)
  /-- Records go under a directory. -/
  | recordsUnder (directory : String)
  deriving DecidableEq, Repr

/-- A number in two digits at least. -/
def twoDigits (n : Nat) : String := String.ofList ((toString n).toList.leftpad 2 '0')

namespace Event

def level : Event → Level
  | tableFull => .warn
  | imageUnreadable .. => .warn
  | created .. => .info
  | discarded _ => .debug
  | admitted _ => .debug
  | skipped _ => .debug
  | dispatched _ => .debug
  | requeued _ => .debug
  | executed .. => .trace
  | terminated _ => .info

def origin : Event → Origin
  | discarded _ => .admission
  | skipped _ => .dispatch
  | executed .. => .processor
  | _ => .scheduler

def message : Event → String
  | tableFull => "process table full, rejecting submission"
  | imageUnreadable path fault => "unable to load image " ++ path ++ ": " ++ fault.message
  | created id name user =>
    "created process " ++ toString id ++ " (" ++ name ++ ") for user " ++ toString user
  | discarded id => "discarding dead process " ++ toString id ++ " from admission queue"
  | admitted id => "admitting process " ++ toString id ++ " to ready queue"
  | skipped id => "skipping dead process " ++ toString id ++ " in ready queue"
  | dispatched id => "dispatching process " ++ toString id
  | requeued id => "requeueing process " ++ toString id
  | executed id e =>
    "pid " ++ toString id ++ " pc " ++ twoDigits e.address ++ " " ++ e.instruction.text
  | terminated r => "process " ++ toString r.status.id ++ " terminated: " ++ r.ending.message

end Event

namespace Notice

def level : Notice → Level
  | event e => e.level
  | recordLost .. => .warn
  | unknownCommand _ => .debug
  | recordsUnder _ => .info

def origin : Notice → Origin
  | event e => e.origin
  | recordLost .. => .scheduler
  | unknownCommand _ => .console
  | recordsUnder _ => .program

def message : Notice → String
  | event e => e.message
  | recordLost id fault =>
    "failed to write core dump for process " ++ toString id ++ ": " ++ fault.message
  | unknownCommand name => "ignoring unknown command " ++ name
  | recordsUnder directory => "writing core dumps under " ++ directory

/-- The line of a notice: its level in five columns, its origin and its wording. -/
def line (n : Notice) : String :=
  String.ofList (n.level.name.toList.rightpad 5 ' ') ++ " " ++ n.origin.path ++ ": " ++
    n.message ++ "\n"

end Notice

end Timeshare
