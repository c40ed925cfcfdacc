import Mathlib
import Timeshare.Proofs.Process.Strict
import Timeshare.Proofs.Scheduler.Isolation

/-!
# Counters in range

A process that has come to a STOP is never given another instruction, so no counter goes further
than one STOP read past the end of memory can take it. `Event.trace` lists the instructions of a
process as the events tell them; they are those of its lone run, in order (`History.trace_eq`).
`inRange_of_run` says where the counters of processes and of records are, and that every instruction
on the way was a strict step: no number lacked room and every operand was an address.
-/

namespace Timeshare

namespace Event

variable {id : ProcessId}

/-- The instruction that an event tells of, if it is one of that process. -/
def execution? (id : ProcessId) : Event → Option Execution
  | executed other e => if other = id then some e else none
  | _ => none

/-- The instructions of a process among some events, in order. -/
def trace (id : ProcessId) (events : List Event) : List Execution :=
  events.filterMap (execution? id)

@[simp] theorem trace_append (id : ProcessId) (es fs : List Event) :
    trace id (es ++ fs) = trace id es ++ trace id fs := List.filterMap_append

theorem trace_executed (id : ProcessId) (e : Execution) : trace id [executed id e] = [e] := by
  simp [trace, execution?]

theorem trace_executed_of_ne {other : ProcessId} (h : other ≠ id) (e : Execution) :
    trace id [executed other e] = [] := by
  simp [trace, execution?, h]

theorem length_trace (id : ProcessId) (events : List Event) :
    (trace id events).length = executions id events := by
  rw [trace, List.length_filterMap_eq_countP, executions]
  refine List.countP_congr fun e _ => ?_
  cases e <;> simp [execution?, isExecutionOf]

end Event

namespace Scheduler

variable {s t : Scheduler} {config : Config} {granted : List Submission} {events : List Event}
  {id : ProcessId} {submission : Submission} {k : Nat}

/-- A move is no instruction of a process, or the one that comes next. -/
theorem Move.trace {es : List Event} (move : Move s es t) (id : ProcessId) :
    Event.trace id es = [] ∨
      ∃ p, s.table.get? id = some p ∧ Event.trace id es = [p.upcoming] := by
  have single : ∀ other p, s.table.get? other = some p →
      Event.trace id [.executed other p.upcoming] = [] ∨
        ∃ q, s.table.get? id = some q ∧ Event.trace id [.executed other p.upcoming] =
          [q.upcoming] := by
    intro other p found
    by_cases own : other = id
    · subst own
      exact .inr ⟨p, found, Event.trace_executed other _⟩
    · exact .inl (Event.trace_executed_of_ne own _)
  cases move with
  | execute _ found _ => exact single _ _ found
  | @finish other p ending _ found _ =>
    have silent : Event.trace id [.terminated ⟨p.step.status, ending⟩] = [] := rfl
    rw [← List.singleton_append, Event.trace_append, silent, List.append_nil]
    exact single _ _ found
  | _ => exact .inl rfl

namespace Faithful

variable (h : Faithful granted events s)

include h

theorem made_of_executed (ran : k < Event.executions id events) :
    ∃ submission, granted[id]? = some submission := by
  have issued : id < granted.length := by
    by_contra new
    rw [h.count] at new
    rw [h.fresh id (Nat.not_lt.mp new)] at ran
    exact absurd ran (Nat.not_lt_zero k)
  exact ⟨granted[id], List.getElem?_eq_getElem issued⟩

/-- All instructions that a process was given were survived, except perhaps the last. -/
theorem survives (made : granted[id]? = some submission)
    (ran : k < Event.executions id events) : (submission.process id).Survives k := by
  cases found : s.table.get? id with
  | some p =>
    obtain ⟨other, made', -, survives⟩ := h.alive id p found
    obtain rfl : submission = other := Option.some.inj (made.symm.trans made')
    exact fun i hi => survives i (hi.trans ran)
  | none =>
    have issued : id < s.table.nextId := by
      rw [← h.count]
      exact (List.getElem?_eq_some_iff.mp made).1
    obtain ⟨r, mem, rfl⟩ := h.ended id issued found
    obtain ⟨-, -, other, made', -, ends⟩ := h.recorded r mem
    obtain rfl : submission = other := Option.some.inj (made.symm.trans made')
    exact ends.survives ran

end Faithful

/-- The instructions of a process are those of its lone run. -/
theorem History.trace_eq (h : History config granted events s) :
    ∀ id submission, granted[id]? = some submission →
      Event.trace id events = (submission.process id).executions (Event.executions id events) := by
  -- The number of instructions is the length of the trace, so a silent event changes neither.
  have silent : ∀ {events es : List Event} {id : ProcessId} {p : Process},
      Event.trace id events = p.executions (Event.executions id events) →
      Event.trace id es = [] →
      Event.trace id (events ++ es) = p.executions (Event.executions id (events ++ es)) := by
    intro events es id p same none
    have still : Event.executions id es = 0 := by rw [← Event.length_trace, none, List.length_nil]
    rw [Event.trace_append, Event.executions_append, none, still, List.append_nil, Nat.add_zero,
      same]
  induction h with
  | start => exact fun id submission made => by cases made
  | refuse _ refusal ih =>
    intro id submission made
    refine silent (ih id submission made) ?_
    rcases refusal with rfl | ⟨path, fault, rfl⟩ <;> rfl
  | @create granted events s new past room ih =>
    intro id submission made
    refine silent ?_ rfl
    by_cases old : id < granted.length
    · rw [List.getElem?_append_left old] at made
      exact ih id submission made
    · have still : Event.executions id events = 0 :=
        past.faithful.fresh id (past.faithful.count ▸ Nat.not_lt.mp old)
      rw [still]
      exact List.eq_nil_of_length_eq_zero ((Event.length_trace id events).trans still)
  | kill _ _ ih =>
    intro id submission made
    exact silent (ih id submission made) rfl
  | @move granted events es s t past move ih =>
    intro id submission made
    rcases move.trace id with none | ⟨p, found, next⟩
    · exact silent (ih id submission made) none
    · obtain ⟨other, made', bare, -⟩ := past.faithful.alive id p found
      obtain rfl : submission = other := Option.some.inj (made.symm.trans made')
      have one : Event.executions id es = 1 := by rw [← Event.length_trace, next]; rfl
      have upcoming : p.upcoming =
          (Process.step^[Event.executions id events] (submission.process id)).upcoming := by
        rw [← bare]
        rfl
      rw [Event.trace_append, Event.executions_append, next, one, Process.executions_succ,
        ih id submission made, upcoming]

/-- Where counters are after some events, and how they got there. -/
structure InRange (granted : List Submission) (events : List Event) (s : Scheduler) : Prop where
  /-- The counter of a process that is alive is an address or the one behind the last, and the next
  step is strict. -/
  alive : ∀ id p, s.table.get? id = some p → p.machine.counter ≤ wordCount ∧
    p.machine.strictStep? = some (p.machine.step, p.upcoming)
  recorded : ∀ r ∈ Event.records events, r.status.counter ≤ wordCount + 1
  /-- What takes a counter furthest is a STOP that is read past the end of memory, and nothing
  else. -/
  past_iff : ∀ r ∈ Event.records events, r.status.counter = wordCount + 1 ↔
    r.ending = .completed ∧
      (Event.trace r.status.id events).getLast? = some ⟨wordCount, .stop⟩
  /-- Every instruction was a strict step of what its own image had become. -/
  executed : ∀ id j e, (Event.trace id events)[j]? = some e → ∃ submission m,
    granted[id]? = some submission ∧ m = Machine.step^[j] (Machine.ofImage submission.image) ∧
    m.counter ≤ wordCount ∧ m.strictStep? = some (m.step, e)

/-- Counters are in range at every point of a history, within a slice too. -/
theorem History.inRange (h : History config granted events s) : InRange granted events s := by
  have faithful := h.faithful
  have start : ∀ (submission : Submission) id,
      (submission.process id).machine.counter ≤ wordCount := fun _ _ => Nat.zero_le _
  have ended : ∀ r ∈ Event.records events, ∃ submission : Submission,
      r.status.counter = (Process.step^[Event.executions r.status.id events]
        (submission.process r.status.id)).machine.counter ∧
      (submission.process r.status.id).Ends (Event.executions r.status.id events) r.ending ∧
      Event.trace r.status.id events =
        (submission.process r.status.id).executions (Event.executions r.status.id events) := by
    intro r mem
    obtain ⟨-, -, submission, made, status, ends⟩ := faithful.recorded r mem
    exact ⟨submission, congrArg Status.counter status, ends, h.trace_eq _ _ made⟩
  constructor
  case alive =>
    intro id p found
    obtain ⟨submission, -, bare, survives⟩ := faithful.alive id p found
    have within : p.bare.machine.counter ≤ wordCount := by
      rw [bare]
      exact Process.counter_le_of_unstopped survives.unstopped (start _ _)
    exact ⟨within, Machine.strictStep?_of_counter_le within⟩
  case recorded =>
    intro r mem
    obtain ⟨submission, counter, ends, -⟩ := ended r mem
    rw [counter]
    exact ends.counter_le (start _ _)
  case past_iff =>
    intro r mem
    obtain ⟨submission, counter, ends, trace⟩ := ended r mem
    rw [counter, trace]
    exact ends.counter_eq_iff (start _ _)
  case executed =>
    intro id j e told
    obtain ⟨inside, -⟩ := List.getElem?_eq_some_iff.mp told
    have ran : j < Event.executions id events := Event.length_trace id events ▸ inside
    obtain ⟨submission, made⟩ := faithful.made_of_executed ran
    have within := Process.counter_le_of_unstopped (faithful.survives made ran).unstopped
      (start submission id)
    have same : e = (Process.step^[j] (submission.process id)).upcoming := by
      rw [h.trace_eq id submission made, Process.executions, List.getElem?_map,
        List.getElem?_range ran, Option.map_some] at told
      exact (Option.some.inj told).symm
    refine ⟨submission, (Process.step^[j] (submission.process id)).machine, made,
      Process.machine_iterate_step _ j, within, ?_⟩
    rw [same]
    exact Machine.strictStep?_of_counter_le within

/-- After any requests, counters of processes are at most the size of memory, those of records at
most one more, and no instruction lacked room for a number or had an operand that is no address. -/
theorem inRange_of_run (run : Run config granted events s) : InRange granted events s :=
  run.history.inRange

/-- A program that goes straight to the last address stops behind it. One of four such processes
has done so, one was killed before it could, one is about to and one has not run. -/
theorem inRange_with_edges :
    ∃ granted events s, Run { slice := 2 } granted events s ∧
      s.processes.map (fun p => (p.id, p.machine.counter)) = [(2, 32), (3, 0)] ∧
      (Event.records events).map (fun r => (r.status.id, r.status.counter, r.ending)) =
        [(0, 33, .completed), (1, 32, .killed)] ∧
      Event.trace 0 events = [⟨0, .branchIfPositive 31⟩, ⟨31, .load 0⟩, ⟨32, .stop⟩] ∧
      InRange granted events s := by
  let load : String → Except Fault (List UInt8) := fun _ => .error .notFound
  let edge : Request := .submitImage
    ⟨1, .normal, 5, "edge", 0xbf :: List.replicate 30 0 ++ [0x20]⟩
  have fresh : Run { slice := 2 } [] [] (init { slice := 2 }) := .start
  have two := (fresh.serve load edge rfl).serve load edge rfl
  have created := (two.serve load edge rfl).serve load edge rfl
  have ticked := (created.serve load .tick rfl).serve load .tick rfl
  have more := (ticked.serve load .tick rfl).serve load .tick rfl
  have run := more.serve load (.kill 1) rfl
  exact ⟨_, _, _, run, by decide, by decide, by decide, inRange_of_run run⟩

end Scheduler

end Timeshare
