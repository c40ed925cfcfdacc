import Timeshare.Process.Basic
import Timeshare.Text.Json

/-!
# Process status

A snapshot of a process: all that is reported about it, at one moment. A snapshot can be written as
a JSON object whose fields stand in a fixed order.
-/

namespace Timeshare

/-- What is reported about a process. -/
structure Status where
  id : ProcessId
  user : Int
  state : ProcessState
  priority : Priority
  budget : Cycles
  executed : Cycles
  name : String
  counter : Nat
  accumulator : UInt8
  flags : UInt8
  memory : Memory
  deriving DecidableEq, Repr

/-- The snapshot of a process as it is now. -/
def Process.status (p : Process) : Status where
  id := p.id
  user := p.user
  state := p.state
  priority := p.priority
  budget := p.budget
  executed := p.executed
  name := p.name
  counter := p.machine.counter
  accumulator := p.machine.accumulator
  flags := p.machine.flags.bits
  memory := p.machine.memory

def Status.json (s : Status) : Json :=
  .object [
    ("id", .number s.id),
    ("user_id", .number s.user),
    ("state", .string s.state.name),
    ("priority", .string s.priority.name),
    ("max_cycles", .number s.budget.toNat),
    ("executed_cycles", .number s.executed.toNat),
    ("name", .string s.name),
    ("program_counter", .number s.counter),
    ("accumulator", .number s.accumulator.toNat),
    ("flags", .number s.flags.toNat),
    ("memory", .array (s.memory.toList.map fun word => .number word.toNat))]

end Timeshare
