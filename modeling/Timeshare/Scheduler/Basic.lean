import Timeshare.Scheduler.Event
import Timeshare.Table

/-!
# The scheduler

A scheduler holds the process table, two queues and the identifier of the running process. A
process is created into the admission queue, moves on to the ready queue when that has room, and
takes turns with the other ready processes from then on. This module has the state, the creation of
processes, the queries and the ways in which a process ends; `Timeshare.Scheduler.Tick` has the
passage of time.
-/

namespace Timeshare

/-- The limits of a scheduler. -/
structure Config where
  /-- Instructions that a process may run in one slice. -/
  slice : Nat := 3
  /-- Entries of the ready queue from which on nothing is admitted. -/
  maxReady : Nat := 5
  /-- Processes that can be created over the lifetime of the scheduler. -/
  maxProcesses : Nat := 100
  deriving DecidableEq, Repr

/-- Why an operation of the scheduler was refused. -/
inductive Refusal where
  | tableFull (capacity : Nat)
  | imageUnreadable (path : String) (fault : Fault)
  | unknownProcess (id : Int)
  deriving DecidableEq, Repr

def Refusal.message : Refusal → String
  | tableFull capacity => "Process table is full (" ++ toString capacity ++ " processes)"
  | imageUnreadable path fault => "Unable to read process image " ++ path ++ ": " ++ fault.message
  | unknownProcess id => "Process " ++ toString id ++ " not found"

/-- The state of a scheduler. -/
structure Scheduler where
  config : Config
  table : Table := Table.empty
  /-- Created and not yet admitted. -/
  admission : Queue := Queue.empty
  /-- Admitted and waiting for the processor. -/
  ready : Queue := Queue.empty
  running : Option ProcessId := none
  deriving DecidableEq, Repr

namespace Scheduler

/-- A scheduler to which nothing has happened. -/
def init (config : Config) : Scheduler := { config }

/-! ## Queries -/

/-- Processes in the order of their identifiers. -/
def processes (s : Scheduler) : List Process := s.table.processes

/-- The number of processes that have not ended. -/
def processCount (s : Scheduler) : Nat := s.processes.length

def process? (s : Scheduler) (id : ProcessId) : Option Process := s.table.get? id

/-- The process that an integer names; a negative one names none. -/
def lookup (s : Scheduler) (id : Int) : Except Refusal Process :=
  if id < 0 then .error (.unknownProcess id)
  else match s.process? id.toNat with
    | some p => .ok p
    | none => .error (.unknownProcess id)

/-- Whether every slot has been handed out. -/
def isFull (s : Scheduler) : Bool := s.config.maxProcesses ≤ s.table.nextId

/-- Whether nothing runs and nothing waits. -/
def isQuiescent (s : Scheduler) : Bool :=
  s.running.isNone && s.admission.isEmpty && s.ready.isEmpty

/-! ## Creation -/

/-- Creates a process from an image that is at hand. -/
def submitImage (s : Scheduler) (submission : Submission) :
    Traced (Except Refusal ProcessId × Scheduler) :=
  if s.isFull then do
    Traced.emit .tableFull
    return (.error (.tableFull s.config.maxProcesses), s)
  else do
    let id := s.table.nextId
    Traced.emit (.created id submission.name submission.user)
    return (.ok id,
      { s with
        table := s.table.insert (submission.process id)
        admission := s.admission.enqueue id })

/-- Creates a process named for the file its image comes from, given what reading that file
yields. A full table is noticed before an unreadable image. -/
def submit (s : Scheduler) (user : Int) (priority : Priority) (budget : Cycles) (path : String)
    (image : Except Fault (List UInt8)) : Traced (Except Refusal ProcessId × Scheduler) :=
  if s.isFull then do
    Traced.emit .tableFull
    return (.error (.tableFull s.config.maxProcesses), s)
  else
    match image with
    | .error fault => do
      Traced.emit (.imageUnreadable path fault)
      return (.error (.imageUnreadable path fault), s)
    | .ok bytes => s.submitImage { user, priority, budget, name := path, image := bytes }

/-! ## Endings -/

/-- Ends a process: it leaves its record, the processor if it holds it, and the table. Queues keep
its identifier until they come across it. -/
def terminate (s : Scheduler) (p : Process) (ending : Ending) : Traced Scheduler := do
  Traced.emit (.terminated ⟨p.status, ending⟩)
  return { s with
    running := if s.running = some p.id then none else s.running
    table := s.table.remove p.id }

/-- Ends the process that an integer names from outside. -/
def kill (s : Scheduler) (id : Int) : Traced (Except Refusal Unit × Scheduler) :=
  match s.lookup id with
  | .error refusal => return (.error refusal, s)
  | .ok p => do
    let s ← s.terminate p .killed
    return (.ok (), s)

end Scheduler

end Timeshare
