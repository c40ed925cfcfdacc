import Timeshare.Machine.Step
import Timeshare.Process.Cycles
import Timeshare.Process.State
import Timeshare.Queue

/-!
# Processes

A process is a machine with an owner, a label, a name, a place in the schedule and a cycle budget.
It may run as many instructions as its budget says; the next one is over budget.
-/

namespace Timeshare

/-- A process as the scheduler keeps it. -/
structure Process where
  id : ProcessId
  user : Int
  priority : Priority
  name : String
  budget : Cycles
  state : ProcessState := .new
  executed : Cycles := 0
  machine : Machine
  dead : Bool := false
  deriving DecidableEq, Repr

/-- What is asked for when a process is created. -/
structure Submission where
  user : Int
  priority : Priority
  budget : Cycles
  name : String
  image : List UInt8
  deriving DecidableEq, Repr

def Submission.process (s : Submission) (id : ProcessId) : Process where
  id := id
  user := s.user
  priority := s.priority
  name := s.name
  budget := s.budget
  machine := Machine.ofImage s.image

/-- An instruction that was carried out and the address it was fetched from. -/
structure Execution where
  address : Nat
  instruction : Instruction
  deriving DecidableEq, Repr

namespace Process

/-- The instruction that comes next. -/
def upcoming (p : Process) : Execution := ⟨p.machine.counter, p.machine.fetch⟩

/-- One instruction, counted before it is carried out. -/
def step (p : Process) : Process :=
  { p with executed := Cycles.next p.executed, machine := p.machine.step }

/-- A process has overrun once it has run more instructions than its budget. -/
def overBudget (p : Process) : Bool := p.budget < p.executed

/-- Sends the program to an address; an address below zero counts as zero. -/
def jump (p : Process) (address : Int) : Process :=
  { p with machine := { p.machine with counter := address.toNat } }

/-- Marks a process as dead, for good. -/
def kill (p : Process) : Process := { p with dead := true }

end Process

end Timeshare
