import Timeshare.Process.Basic

/-!
# Time slices

A slice lets one process run a fixed number of instructions. It ends early when the process ends:
by a STOP, or by an instruction beyond its budget. A STOP that is itself beyond the budget still
ends the process normally.
-/

namespace Timeshare

/-- How a process came to its end. -/
inductive Ending where
  | completed
  | timeLimit
  | killed
  deriving DecidableEq, Repr

def Ending.message : Ending → String
  | completed => "Process completed normally"
  | timeLimit => "Process reached CPU time limit"
  | killed => "Process killed"

/-- What a slice leaves: the process, the instructions it ran, oldest first, and how it ended if it
did. -/
structure Slice where
  process : Process
  executed : List Execution
  ending : Option Ending
  deriving DecidableEq, Repr

namespace Process

/-- Whether the upcoming instruction is the last one of the process, and why. -/
def verdict (p : Process) : Option Ending :=
  if p.upcoming.instruction = .stop then some .completed
  else if p.step.overBudget then some .timeLimit
  else none

/-- A slice of at most `limit` instructions. -/
def slice (limit : Nat) (p : Process) : Slice :=
  go limit p []
where
  go : Nat → Process → List Execution → Slice
    | 0, p, past => ⟨p, past.reverse, none⟩
    | limit + 1, p, past =>
      match p.verdict with
      | some ending => ⟨p.step, (p.upcoming :: past).reverse, some ending⟩
      | none => go limit p.step (p.upcoming :: past)

end Process

end Timeshare
