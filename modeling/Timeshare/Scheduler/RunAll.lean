import Timeshare.Scheduler.Tick

/-!
# Running until nothing is left

Ticks are repeated until nothing runs and nothing waits. With a slice of at least one instruction
and room for at least one ready process, every tick but the first and the last runs an instruction,
so the work that is left bounds the number of ticks. A process with a budget it can never exceed
either stops or comes back to a machine state it was in before, so the number of machine states
bounds its work. Running past the bound therefore means running for ever.
-/

namespace Timeshare

/-- The number of states of a machine whose counter is at most 32: 33 counters, 256 accumulators,
8 sets of flags and 32 words of memory. -/
def Machine.stateCount : Nat := 33 * 256 * 8 * Nat.pow 256 wordCount

/-- A bound on the instructions that a process still runs, if it ever ends. -/
def Process.workLimit (p : Process) : Nat :=
  if p.budget = Cycles.limit then Machine.stateCount
  else p.budget.toNat - p.executed.toNat + 1

namespace Scheduler

/-- A bound on the ticks until nothing is left, if that ever happens. -/
def tickLimit (s : Scheduler) : Nat :=
  s.processes.foldr (fun p work => p.workLimit + work) 2

/-- At most `limit` ticks, until nothing is left; nothing when that is too few. The events so far
come newest first. -/
def runWithin : Nat → Scheduler → List Event → Option (Traced Scheduler)
  | 0, s, past => if s.isQuiescent then some ⟨s, past.reverse⟩ else none
  | limit + 1, s, past =>
    if s.isQuiescent then some ⟨s, past.reverse⟩
    else
      let t := s.tick
      runWithin limit t.value (t.events.reverseAux past)

/-- Ticks until nothing is left; nothing if that never happens. -/
def runAll (s : Scheduler) : Option (Traced Scheduler) := runWithin s.tickLimit s []

end Scheduler

end Timeshare
