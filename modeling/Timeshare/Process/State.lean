/-!
# States and priorities

A process waits for admission, waits for the processor or runs. Its priority is recorded and
reported, and orders no queue.
-/

namespace Timeshare

/-- Where a process stands. -/
inductive ProcessState where
  | new
  | ready
  | running
  deriving DecidableEq, Repr

namespace ProcessState

/-- States by number; a number that names none counts as new. -/
def ofIndex : Int → ProcessState
  | 1 => ready
  | 2 => running
  | _ => new

def name : ProcessState → String
  | new => "New"
  | ready => "Ready"
  | running => "Running"

end ProcessState

/-- The label that a submitter gives a process. -/
inductive Priority where
  | low
  | normal
  | high
  deriving DecidableEq, Repr

namespace Priority

/-- Priorities by number; a number that names none counts as low. -/
def ofIndex : Int → Priority
  | 1 => normal
  | 2 => high
  | _ => low

def name : Priority → String
  | low => "Low"
  | normal => "Normal"
  | high => "High"

end Priority

end Timeshare
