import Mathlib
import Timeshare.Proofs.Scheduler.Placement

/-!
# Isolation

Sharing the processor does not show: what a process has become is what its own image becomes when
it runs alone for as many instructions as the process was given. `Faithful` is the invariant, over
the submissions granted and the events so far; the number of instructions is the number of events
that say so. `isolated_of_run` spells it out for the processes that are alive and for the records
of those that are gone, whose endings it justifies.
-/

namespace Timeshare

/-- Whether an event is an instruction of that process. -/
def Event.isExecutionOf (id : ProcessId) : Event → Bool
  | executed other _ => other == id
  | _ => false

/-- The number of instructions of a process among some events. -/
def Event.executions (id : ProcessId) (events : List Event) : Nat :=
  events.countP (isExecutionOf id)

namespace Event

@[simp] theorem executions_nil (id : ProcessId) : executions id [] = 0 := rfl

@[simp] theorem executions_append (id : ProcessId) (es fs : List Event) :
    executions id (es ++ fs) = executions id es + executions id fs := List.countP_append

theorem executions_executed (id : ProcessId) (e : Execution) (rest : List Event) :
    executions id (executed id e :: rest) = executions id rest + 1 := by
  simp [executions, isExecutionOf]

theorem executions_executed_of_ne {id other : ProcessId} (h : other ≠ id) (e : Execution)
    (rest : List Event) : executions other (executed id e :: rest) = executions other rest := by
  simp [executions, isExecutionOf, Ne.symm h]

end Event

/-- Changing the state of a process changes its place only. -/
theorem Table.map_bare_get?_update (t : Table) (id other : ProcessId) (state : ProcessState) :
    ((t.update id fun p => { p with state := state }).get? other).map Process.bare =
      (t.get? other).map Process.bare := by
  rw [Table.get?_update]
  split
  case isTrue h =>
    subst h
    cases t.get? other <;> rfl
  case isFalse => rfl

namespace Scheduler

/-- What has become of the processes is what becomes of them when they run alone. -/
structure Faithful (granted : List Submission) (events : List Event) (s : Scheduler) : Prop where
  /-- Identifiers number the submissions granted. -/
  count : granted.length = s.table.nextId
  /-- Who does not exist yet has not run. -/
  fresh : ∀ id, s.table.nextId ≤ id → Event.executions id events = 0
  /-- A process that is alive has run alone and survived. -/
  alive : ∀ id p, s.table.get? id = some p →
    ∃ submission, granted[id]? = some submission ∧
      p.bare = Process.step^[Event.executions id events] (submission.process id) ∧
      (submission.process id).Survives (Event.executions id events)
  /-- A record is left by a process that is gone, which has run alone to its end. -/
  recorded : ∀ r ∈ Event.records events, r.status.id < s.table.nextId ∧
    s.table.get? r.status.id = none ∧
    ∃ submission, granted[r.status.id]? = some submission ∧
      { r.status with state := .new } = (Process.step^[Event.executions r.status.id events]
        (submission.process r.status.id)).status ∧
      (submission.process r.status.id).Ends (Event.executions r.status.id events) r.ending
  /-- Everybody who is gone has left a record. -/
  ended : ∀ id < s.table.nextId, s.table.get? id = none →
    ∃ r ∈ Event.records events, r.status.id = id

namespace Faithful

variable {granted : List Submission} {events es : List Event} {s t : Scheduler}
  {id : ProcessId} {p : Process}

/-- Nobody runs, nobody ends, and at most places change. -/
theorem quiet (h : Faithful granted events s) (nextId : t.table.nextId = s.table.nextId)
    (lookup : ∀ id, (t.table.get? id).map Process.bare = (s.table.get? id).map Process.bare)
    (records : Event.records es = []) (rest : ∀ id, Event.executions id es = 0) :
    Faithful granted (events ++ es) t := by
  have records_eq : Event.records (events ++ es) = Event.records events := by simp [records]
  have executions_eq : ∀ id, Event.executions id (events ++ es) = Event.executions id events := by
    intro id
    simp [rest id]
  have gone_iff : ∀ id, t.table.get? id = none ↔ s.table.get? id = none := by
    intro id
    rw [← Option.map_eq_none_iff (f := Process.bare), lookup, Option.map_eq_none_iff]
  constructor
  case count => rw [nextId, h.count]
  case fresh =>
    intro id hid
    rw [executions_eq]
    exact h.fresh id (nextId ▸ hid)
  case alive =>
    intro id q hq
    have hmap := lookup id
    rw [hq, Option.map_some, eq_comm, Option.map_eq_some_iff] at hmap
    obtain ⟨p, hp, bare⟩ := hmap
    rw [executions_eq, ← bare]
    exact h.alive id p hp
  case recorded =>
    intro r hr
    rw [records_eq] at hr
    rw [executions_eq, nextId, gone_iff]
    exact h.recorded r hr
  case ended =>
    intro id hid gone
    rw [records_eq]
    exact h.ended id (nextId ▸ hid) ((gone_iff id).mp gone)

/-- The process of a slot carries out an instruction that is not its last. -/
theorem execute (h : Faithful granted events s) (found : s.table.get? id = some p)
    (goes : p.verdict = none) :
    Faithful granted (events ++ [.executed id p.upcoming]) (s.advance id p.step) := by
  have nextId : (s.advance id p.step).table.nextId = s.table.nextId := Table.nextId_update _ _ _
  have own : Event.executions id (events ++ [.executed id p.upcoming]) =
      Event.executions id events + 1 := by
    rw [Event.executions_append, Event.executions_executed, Event.executions_nil]
  have others : ∀ other, other ≠ id →
      Event.executions other (events ++ [.executed id p.upcoming]) =
        Event.executions other events := by
    intro other hne
    rw [Event.executions_append, Event.executions_executed_of_ne hne, Event.executions_nil,
      Nat.add_zero]
  have lookup : ∀ other, (s.advance id p.step).table.get? other =
      if other = id then some p.step else s.table.get? other := get?_advance p.step found
  have records_eq : Event.records (events ++ [.executed id p.upcoming]) = Event.records events := by
    simp [Event.records, Event.record?]
  constructor
  case count => rw [nextId, h.count]
  case fresh =>
    intro other hother
    rw [nextId] at hother
    rw [others other ((Table.lt_nextId_of_get? found).trans_le hother).ne']
    exact h.fresh other hother
  case alive =>
    intro other q hq
    rw [lookup] at hq
    split at hq
    case isTrue heq =>
      subst heq
      cases Option.some.inj hq
      obtain ⟨submission, granted_eq, bare, survives⟩ := h.alive other p found
      have verdict : (Process.step^[Event.executions other events]
          (submission.process other)).verdict = none := by
        rw [← bare, Process.verdict_bare, goes]
      refine ⟨submission, granted_eq, ?_, ?_⟩
      · rw [own, Function.iterate_succ_apply', ← bare, Process.step_bare]
      · rw [own]
        exact Process.survives_succ_iff.mpr ⟨survives, verdict⟩
    case isFalse hne =>
      rw [others other hne]
      exact h.alive other q hq
  case recorded =>
    intro r hr
    rw [records_eq] at hr
    obtain ⟨issued, gone, rest⟩ := h.recorded r hr
    have hne : r.status.id ≠ id := by
      intro heq
      rw [heq, found] at gone
      cases gone
    rw [others _ hne, nextId, lookup, if_neg hne]
    exact ⟨issued, gone, rest⟩
  case ended =>
    intro other hother gone
    rw [lookup] at gone
    split at gone
    · cases gone
    · rw [records_eq]
      exact h.ended other (nextId ▸ hother) gone

/-- A process ends and leaves a record. -/
theorem depart (h : Faithful granted events s) (found : s.table.get? id = some p)
    (nextId : t.table.nextId = s.table.nextId)
    (lookup : ∀ other, t.table.get? other = if other = id then none else s.table.get? other)
    {r : Record} (own : r.status.id = id) (records : Event.records es = [r])
    (rest : ∀ other, other ≠ id → Event.executions other es = 0)
    (ends : ∀ submission, granted[id]? = some submission →
      p.bare = Process.step^[Event.executions id events] (submission.process id) →
      (submission.process id).Survives (Event.executions id events) →
      { r.status with state := .new } = (Process.step^[Event.executions id (events ++ es)]
        (submission.process id)).status ∧
      (submission.process id).Ends (Event.executions id (events ++ es)) r.ending) :
    Faithful granted (events ++ es) t := by
  have others : ∀ other, other ≠ id →
      Event.executions other (events ++ es) = Event.executions other events := by
    intro other hne
    rw [Event.executions_append, rest other hne, Nat.add_zero]
  have records_eq : Event.records (events ++ es) = Event.records events ++ [r] := by
    rw [Event.records_append, records]
  constructor
  case count => rw [nextId, h.count]
  case fresh =>
    intro other hother
    rw [nextId] at hother
    rw [others other ((Table.lt_nextId_of_get? found).trans_le hother).ne']
    exact h.fresh other hother
  case alive =>
    intro other q hq
    rw [lookup] at hq
    split at hq
    · cases hq
    case isFalse hne =>
      rw [others other hne]
      exact h.alive other q hq
  case recorded =>
    intro q hq
    rw [records_eq, List.mem_append, List.mem_singleton] at hq
    rw [nextId, lookup]
    rcases hq with hq | rfl
    · obtain ⟨issued, gone, left⟩ := h.recorded q hq
      have hne : q.status.id ≠ id := by
        intro heq
        rw [heq, found] at gone
        cases gone
      rw [others _ hne, if_neg hne]
      exact ⟨issued, gone, left⟩
    · obtain ⟨submission, granted_eq, bare, survives⟩ := h.alive id p found
      rw [own, if_pos rfl]
      exact ⟨Table.lt_nextId_of_get? found, rfl, submission, granted_eq,
        ends submission granted_eq bare survives⟩
  case ended =>
    intro other hother gone
    rw [records_eq]
    by_cases heq : other = id
    · exact ⟨r, List.mem_append_right _ (List.mem_singleton_self r), own.trans heq.symm⟩
    · rw [lookup, if_neg heq] at gone
      obtain ⟨q, hq, hid⟩ := h.ended other (nextId ▸ hother) gone
      exact ⟨q, List.mem_append_left _ hq, hid⟩

/-- The process of a slot carries out its last instruction. -/
theorem finish {ending : Ending} (h : Faithful granted events s) (placed : s.Placed)
    (found : s.table.get? id = some p) (verdict : p.verdict = some ending) :
    Faithful granted
      (events ++ [.executed id p.upcoming, .terminated ⟨p.step.status, ending⟩])
      ((s.advance id p.step).without p.step) := by
  obtain ⟨rfl, -⟩ := placed.filed id p found
  have own : Event.executions p.id
      (events ++ [.executed p.id p.upcoming, .terminated ⟨p.step.status, ending⟩]) =
        Event.executions p.id events + 1 := by
    rw [Event.executions_append, Event.executions_executed]
    rfl
  apply h.depart found
  case nextId => exact (Table.nextId_remove _ _).trans (Table.nextId_update _ _ _)
  case lookup =>
    intro other
    rw [table_without_advance s p.id p.step rfl, Table.get?_remove]
  case r => exact ⟨p.step.status, ending⟩
  case own => rfl
  case records => rfl
  case rest =>
    intro other hne
    rw [Event.executions_executed_of_ne hne]
    rfl
  case ends =>
    intro submission _ bare survives
    rw [own, Function.iterate_succ_apply', ← bare]
    refine ⟨rfl, .last survives ?_⟩
    rw [← bare, Process.verdict_bare, verdict]

/-- A process is killed. -/
theorem kill (h : Faithful granted events s) (placed : s.Placed)
    (found : s.table.get? id = some p) :
    Faithful granted (events ++ [.terminated ⟨p.status, .killed⟩]) (s.without p) := by
  obtain ⟨rfl, -⟩ := placed.filed id p found
  apply h.depart found
  case nextId => exact Table.nextId_remove _ _
  case lookup => exact Table.get?_remove _ _
  case r => exact ⟨p.status, .killed⟩
  case own => rfl
  case records => rfl
  case rest => exact fun _ _ => rfl
  case ends =>
    intro submission _ bare survives
    rw [Event.executions_append]
    refine ⟨?_, .killed survives⟩
    rw [show Event.executions p.id [.terminated ⟨p.status, .killed⟩] = 0 from rfl, Nat.add_zero,
      ← bare]
    rfl

/-- A process is created. -/
theorem create (h : Faithful granted events s) (submission : Submission) :
    Faithful (granted ++ [submission])
      (events ++ [.created s.table.nextId submission.name submission.user])
      (s.create submission) := by
  have executions_eq : ∀ id, Event.executions id
      (events ++ [.created s.table.nextId submission.name submission.user]) =
        Event.executions id events := by
    intro id
    rw [Event.executions_append]
    rfl
  have records_eq : Event.records
      (events ++ [.created s.table.nextId submission.name submission.user]) =
        Event.records events := by
    simp [Event.records, Event.record?]
  have nextId : (s.create submission).table.nextId = s.table.nextId + 1 := Table.nextId_insert _ _
  have lookup : ∀ other, (s.create submission).table.get? other =
      if other = s.table.nextId then some (submission.process s.table.nextId)
      else s.table.get? other := fun other => Table.get?_insert _ _ _
  have old : ∀ id < s.table.nextId, (granted ++ [submission])[id]? = granted[id]? := by
    intro id hid
    exact List.getElem?_append_left (h.count ▸ hid)
  constructor
  case count => rw [List.length_append, h.count, nextId, List.length_singleton]
  case fresh =>
    intro id hid
    rw [nextId] at hid
    rw [executions_eq]
    exact h.fresh id (Nat.le_of_succ_le hid)
  case alive =>
    intro id q hq
    rw [executions_eq]
    rw [lookup] at hq
    split at hq
    case isTrue heq =>
      cases Option.some.inj hq
      have now : Event.executions id events = 0 := h.fresh id heq.ge
      rw [now, heq]
      refine ⟨submission, ?_, rfl, Process.survives_zero _⟩
      rw [← h.count, List.getElem?_concat_length]
    case isFalse =>
      rw [old id (Table.lt_nextId_of_get? hq)]
      exact h.alive id q hq
  case recorded =>
    intro r hr
    rw [records_eq] at hr
    obtain ⟨issued, gone, rest⟩ := h.recorded r hr
    rw [executions_eq, nextId, lookup, if_neg issued.ne, old _ issued]
    exact ⟨Nat.lt_succ_of_lt issued, gone, rest⟩
  case ended =>
    intro id hid gone
    rw [nextId] at hid
    rw [lookup] at gone
    split at gone
    · cases gone
    case isFalse hne =>
      rw [records_eq]
      exact h.ended id (Nat.lt_of_le_of_ne (Nat.le_of_lt_succ hid) hne) gone

end Faithful

theorem faithful_init (config : Config) : Faithful [] [] (init config) where
  count := rfl
  fresh := fun _ _ => rfl
  alive := fun _ _ hp => by cases hp
  recorded := fun _ hr => absurd hr List.not_mem_nil
  ended := fun _ hid => absurd hid (Nat.not_lt_zero _)

/-- At every point of a history the processes are what they would be alone. -/
theorem History.faithful {config : Config} {granted : List Submission} {events : List Event}
    {s : Scheduler} (h : History config granted events s) : Faithful granted events s := by
  induction h with
  | start => exact faithful_init config
  | refuse past refusal ih =>
    rcases refusal with rfl | ⟨path, fault, rfl⟩
    · exact ih.quiet rfl (fun _ => rfl) rfl fun _ => rfl
    · exact ih.quiet rfl (fun _ => rfl) rfl fun _ => rfl
  | create submission _ _ ih => exact ih.create submission
  | kill past found ih => exact ih.kill past.placed found
  | @move _ _ _ s t past move ih =>
    cases move with
    | discard => exact ih.quiet rfl (fun _ => rfl) rfl fun _ => rfl
    | promote =>
      exact ih.quiet (Table.nextId_update _ _ _) (Table.map_bare_get?_update _ _ · _) rfl
        fun _ => rfl
    | skip => exact ih.quiet rfl (fun _ => rfl) rfl fun _ => rfl
    | dispatch =>
      exact ih.quiet (Table.nextId_update _ _ _) (Table.map_bare_get?_update _ _ · _) rfl
        fun _ => rfl
    | execute _ found goes => exact ih.execute found goes
    | finish _ found ends => exact ih.finish past.placed found ends
    | requeue =>
      exact ih.quiet (Table.nextId_update _ _ _) (Table.map_bare_get?_update _ _ · _) rfl
        fun _ => rfl

/-- Processes and records are what lone runs give. -/
structure Isolated (granted : List Submission) (events : List Event) (s : Scheduler) : Prop where
  /-- A process that is alive has carried out exactly its own instructions, none of them a STOP,
  and is within budget. -/
  alive : ∀ id p, s.table.get? id = some p → ∃ submission k, granted[id]? = some submission ∧
    k = Event.executions id events ∧
    p = { Process.step^[k] (submission.process id) with state := p.state } ∧
    p.executed.toNat = min k 4294967295 ∧ p.executed.toNat ≤ submission.budget.toNat ∧
    (submission.process id).Unstopped k
  /-- A record shows the end of a lone run, which justifies the ending. -/
  recorded : ∀ r ∈ Event.records events, ∃ submission k,
    granted[r.status.id]? = some submission ∧ k = Event.executions r.status.id events ∧
    r.status = { (Process.step^[k] (submission.process r.status.id)).status with
      state := r.status.state } ∧
    r.status.executed.toNat = min k 4294967295 ∧
    (submission.process r.status.id).Justified k r.ending

/-- After any requests, processes and records are what lone runs of their own images give. -/
theorem isolated_of_run {config : Config} {granted : List Submission} {events : List Event}
    {s : Scheduler} (run : Run config granted events s) : Isolated granted events s := by
  have faithful := run.history.faithful
  constructor
  case alive =>
    intro id p found
    obtain ⟨submission, granted_eq, bare, survives⟩ := faithful.alive id p found
    have same := Process.eq_of_bare bare
    have executed := Process.toNat_executed_iterate (submission.process id)
      (Event.executions id events)
    have within := survives.overBudget_eq_false (Process.overBudget_submission submission id)
    rw [Process.overBudget_eq_false_iff, Process.iterate_step_budget] at within
    refine ⟨submission, _, granted_eq, rfl, same, ?_, ?_, survives.unstopped⟩
    · rw [same]
      simpa [Submission.process] using executed
    · rw [same]
      exact within
  case recorded =>
    intro r hr
    obtain ⟨-, -, submission, granted_eq, status, ends⟩ := faithful.recorded r hr
    have same : r.status = { (Process.step^[Event.executions r.status.id events]
        (submission.process r.status.id)).status with state := r.status.state } := by
      rw [← status]
    have same_count : r.status.executed = (Process.step^[Event.executions r.status.id events]
        (submission.process r.status.id)).executed := congrArg Status.executed same
    have executed := Process.toNat_executed_iterate (submission.process r.status.id)
      (Event.executions r.status.id events)
    rw [← same_count] at executed
    refine ⟨submission, _, granted_eq, rfl, same, ?_, ?_⟩
    · simpa [Submission.process] using executed
    · exact ends.justified (Process.overBudget_submission submission _)

/-- One process stops, one runs out of budget, one is killed and one is left. -/
theorem isolated_after_endings :
    ∃ granted events s, Run { slice := 2, maxReady := 2 } granted events s ∧
      (Event.records events).map (fun r => (r.status.id, r.ending)) =
        [(0, .completed), (1, .timeLimit), (2, .killed)] ∧
      s.running = some 3 ∧ Isolated granted events s := by
  let load : String → Except Fault (List UInt8) := fun _ => .error .notFound
  let stop : Request := .submitImage ⟨1, .low, 0, "stop", []⟩
  let loop : Request := .submitImage ⟨1, .normal, 2, "loop", loopImage⟩
  have fresh : Run { slice := 2, maxReady := 2 } [] [] (init { slice := 2, maxReady := 2 }) :=
    .start
  have two := (fresh.serve load stop rfl).serve load loop rfl
  have created := (two.serve load loop rfl).serve load loop rfl
  have ticked := (created.serve load .tick rfl).serve load .tick rfl
  have run := ((ticked.serve load .tick rfl).serve load .tick rfl).serve load (.kill 2) rfl
  exact ⟨_, _, _, run, by decide, by decide, isolated_of_run run⟩

end Scheduler

end Timeshare
