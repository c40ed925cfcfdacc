import Timeshare.Scheduler.Basic

/-!
# The passage of time

Time advances by ticks. A tick admits at most one process, gives the processor away if it is free,
lets the running process have one slice, puts it back behind the other ready processes if it
survived, and gives the processor away again. Identifiers of ended processes are dropped as the
queues come across them.
-/

namespace Timeshare

namespace Scheduler

/-- Puts a process at the tail of the ready queue, whatever the length of that queue. -/
def makeReady (s : Scheduler) (id : ProcessId) : Scheduler :=
  { s with
    table := s.table.update id fun p => { p with state := .ready }
    ready := s.ready.enqueue id }

/-- Admits the first process that waits for it, if the ready queue is below its limit. -/
def admitNext (s : Scheduler) : Traced Scheduler :=
  if s.ready.holdsAtLeast s.config.maxReady then return s
  else do
    let (gone, first, rest) := s.admission.takeFirst s.table.isLive
    Traced.emitAll (gone.map .discarded)
    let s := { s with admission := rest }
    match first with
    | none => return s
    | some id =>
      Traced.emit (.admitted id)
      return s.makeReady id

/-- Gives the processor to the first ready process, if there is one. -/
def dispatch (s : Scheduler) : Traced Scheduler := do
  let (gone, first, rest) := s.ready.takeFirst s.table.isLive
  Traced.emitAll (gone.map .skipped)
  let s := { s with ready := rest }
  match first with
  | none => return s
  | some id =>
    Traced.emit (.dispatched id)
    return { s with
      table := s.table.update id fun p => { p with state := .running }
      running := some id }

/-- Lets a process have one slice. -/
def runSlice (s : Scheduler) (id : ProcessId) : Traced Scheduler :=
  match s.table.get? id with
  | none => return s
  | some p => do
    let slice := p.slice s.config.slice
    Traced.emitAll (slice.executed.map (.executed id))
    let s := { s with table := s.table.update id fun _ => slice.process }
    match slice.ending with
    | none => return s
    | some ending => s.terminate slice.process ending

/-- Takes the processor from the running process, which becomes the last of the ready ones. -/
def requeue (s : Scheduler) : Traced Scheduler :=
  match s.running with
  | none => return s
  | some id => do
    Traced.emit (.requeued id)
    return { s with running := none }.makeReady id

def tick (s : Scheduler) : Traced Scheduler := do
  let s ← s.admitNext
  let s ← if s.running.isNone then s.dispatch else pure s
  match s.running with
  | none => return s
  | some id =>
    let s ← s.runSlice id
    let s ← s.requeue
    s.dispatch

def ticks : Nat → Scheduler → Traced Scheduler
  | 0, s => return s
  | n + 1, s => do
    let s ← s.tick
    ticks n s

end Scheduler

end Timeshare
