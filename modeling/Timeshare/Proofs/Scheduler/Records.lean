import Mathlib
import Timeshare.Proofs.Scheduler.Work

/-!
# One record each

Everybody who was ever created is either alive or has left a record, and nobody has left two:
`History.accounted` says that the identifiers of the records and of the processes together are all
that were handed out. What stands in a record follows from the submission and, for the state, from
the move that ended the process. `recorded_of_run` puts this together and says that an end is final.
-/

namespace Timeshare

/-- An event without a record leaves the records as they are. -/
theorem Event.records_concat {e : Event} (events : List Event) (h : e.record? = none) :
    records (events ++ [e]) = records events := by
  rw [records_append, records, records, List.filterMap_cons_none h, List.filterMap_nil,
    List.append_nil]

theorem Event.IsRefusal.record?_eq_none {e : Event} (h : e.IsRefusal) : e.record? = none := by
  rcases h with rfl | ⟨path, fault, rfl⟩ <;> rfl

theorem Table.processes_insert (t : Table) (p : Process) :
    (t.insert p).processes = t.processes ++ [p] := by
  simp [processes, insert]

namespace Scheduler

variable {s t : Scheduler} {config : Config} {granted : List Submission} {events : List Event}
  {id : ProcessId}

theorem Move.nextId_eq {es : List Event} (move : Move s es t) :
    t.table.nextId = s.table.nextId := by
  cases move with
  | discard => rfl
  | skip => rfl
  | promote => exact Table.nextId_update _ _ _
  | dispatch => exact Table.nextId_update _ _ _
  | requeue => exact Table.nextId_update _ _ _
  | execute => exact Table.nextId_update _ _ _
  | finish => exact (Table.nextId_remove _ _).trans (Table.nextId_update _ _ _)

/-- The identifiers on the records and those in the table are all that were handed out, each of them
once. -/
theorem History.accounted (h : History config granted events s) :
    ((Event.records events).map (fun r => r.status.id) ++ s.processes.map Process.id).Perm
      (List.range s.table.nextId) := by
  induction h with
  | start => exact .refl []
  | refuse _ refusal ih =>
    rw [Event.records_concat _ refusal.record?_eq_none]
    exact ih
  | @create granted events s submission past room ih =>
    have nextId : (s.create submission).table.nextId = s.table.nextId + 1 :=
      Table.nextId_insert _ _
    have processes : (s.create submission).processes =
        s.processes ++ [submission.process s.table.nextId] := Table.processes_insert _ _
    rw [Event.records_concat _ rfl, nextId, List.range_succ, processes, List.map_append,
      ← List.append_assoc]
    exact ih.append (.refl [s.table.nextId])
  | @kill granted events s id p past found ih =>
    obtain ⟨rfl, -⟩ := past.placed.filed id p found
    have nextId : (s.without p).table.nextId = s.table.nextId := Table.nextId_remove _ _
    have before : (s.processes.map Process.id).Perm
        (p.id :: (s.without p).processes.map Process.id) :=
      (Table.processes_remove found).map Process.id
    rw [nextId, Event.records_append, List.map_append, List.append_assoc]
    exact (before.symm.append_left _).trans ih
  | @move granted events es s t past move ih =>
    obtain ⟨perm, -⟩ := move.accounted past.placed
    rw [move.nextId_eq, Event.records_append, List.map_append, List.append_assoc]
    exact (perm.symm.append_left _).trans ih

/-- A process that was not killed was running when it ended. -/
theorem History.state_running (h : History config granted events s) :
    ∀ r ∈ Event.records events, r.ending ≠ .killed → r.status.state = .running := by
  induction h with
  | start => exact fun _ hr => absurd hr List.not_mem_nil
  | refuse _ refusal ih =>
    rw [Event.records_concat _ refusal.record?_eq_none]
    exact ih
  | create _ _ _ ih =>
    rw [Event.records_concat _ rfl]
    exact ih
  | kill _ _ ih =>
    intro r hr natural
    rw [Event.records_append] at hr
    rcases List.mem_append.mp hr with before | last
    · exact ih r before natural
    · rw [List.mem_singleton.mp last] at natural
      exact absurd rfl natural
  | @move granted events es s t past move ih =>
    intro r hr natural
    rw [Event.records_append] at hr
    rcases List.mem_append.mp hr with before | last
    · exact ih r before natural
    · cases move with
      | @finish id p ending running found ends =>
        have runs : id ∈ s.place .running := by simp [place, running]
        rw [List.mem_singleton.mp last]
        exact (past.placed.state_iff id p found .running).mpr runs
      | _ => cases last

/-! ## The records of a run -/

/-- What the records among the events tell of the processes that are gone. -/
structure Recorded (granted : List Submission) (events : List Event) (s : Scheduler) : Prop where
  /-- No two records are of the same process. -/
  nodup : ((Event.records events).map fun r => r.status.id).Nodup
  /-- Those who have left a record are those who were created and are not alive. -/
  mem_iff : ∀ id, id ∈ (Event.records events).map (fun r => r.status.id) ↔
    id < s.table.nextId ∧ s.table.isLive id = false
  count : s.table.nextId = s.processCount + (Event.records events).length
  /-- A record repeats what was submitted. -/
  labels : ∀ r ∈ Event.records events, ∃ submission, granted[r.status.id]? = some submission ∧
    r.status.user = submission.user ∧ r.status.priority = submission.priority ∧
    r.status.budget = submission.budget ∧ r.status.name = submission.name
  /-- Who came to an end without being killed was running. -/
  running : ∀ r ∈ Event.records events, r.ending = .completed ∨ r.ending = .timeLimit →
    r.status.state = .running

theorem History.recorded (h : History config granted events s) : Recorded granted events s := by
  have placed := h.placed
  have perm := h.accounted
  have distinct := List.nodup_append'.mp (perm.nodup_iff.mpr List.nodup_range)
  have alive_iff : ∀ id, id ∈ s.processes.map Process.id ↔ s.table.isLive id = true := by
    intro id
    rw [placed.isLive_iff, List.mem_map]
    constructor
    · rintro ⟨p, hp, rfl⟩
      obtain ⟨id, found⟩ := Table.mem_processes.mp hp
      exact ⟨p, by rwa [(placed.filed id p found).1]⟩
    · rintro ⟨p, found⟩
      exact ⟨p, Table.mem_processes.mpr ⟨id, found⟩, (placed.filed id p found).1⟩
  constructor
  case nodup => exact distinct.1
  case mem_iff =>
    intro id
    have issued : id ∈ (Event.records events).map (fun r => r.status.id) ++
        s.processes.map Process.id ↔ id < s.table.nextId := by
      rw [perm.mem_iff, List.mem_range]
    rw [List.mem_append, alive_iff] at issued
    constructor
    · intro left
      refine ⟨issued.mp (.inl left), ?_⟩
      rw [← Bool.not_eq_true, ← alive_iff]
      exact distinct.2.2 left
    · rintro ⟨created, gone⟩
      exact (issued.mpr created).resolve_right (by rw [gone]; exact Bool.false_ne_true)
  case count =>
    have length := perm.length_eq
    rw [List.length_append, List.length_map, List.length_map, List.length_range] at length
    rw [processCount, ← length, Nat.add_comm]
  case labels =>
    intro r hr
    obtain ⟨-, -, submission, made, status, -⟩ := h.faithful.recorded r hr
    rw [Process.iterate_step_eq] at status
    exact ⟨submission, made, congrArg Status.user status, congrArg Status.priority status,
      congrArg Status.budget status, congrArg Status.name status⟩
  case running =>
    rintro r hr natural
    apply h.state_running r hr
    rcases natural with ending | ending <;> simp [ending]

/-- After any requests everybody who is gone has left one record and nobody else has, and whoever is
gone stays so without a trace, whatever is asked further. -/
theorem recorded_of_run (run : Run config granted events s) :
    Recorded granted events s ∧ ∀ more es t, Further s more es t → ∀ id < s.table.nextId,
      s.table.isLive id = false →
        t.table.isLive id = false ∧ (∀ p ∈ t.processes, p.id ≠ id) ∧ t.running ≠ some id ∧
        ∀ r ∈ Event.records es, r.status.id ≠ id := by
  have recorded := run.history.recorded
  refine ⟨recorded, fun more es t further id created gone => ?_⟩
  have later := (run.further further).history
  have left : id ∈ (Event.records events).map fun r => r.status.id :=
    (recorded.mem_iff id).mpr ⟨created, gone⟩
  have both := later.recorded.nodup
  rw [Event.records_append, List.map_append, List.nodup_append'] at both
  have gone' : t.table.isLive id = false := by
    refine ((later.recorded.mem_iff id).mp ?_).2
    rw [Event.records_append, List.map_append]
    exact List.mem_append_left _ left
  refine ⟨gone', ?_, ?_, ?_⟩
  · rintro p hp rfl
    obtain ⟨id, found⟩ := Table.mem_processes.mp hp
    rw [(later.placed.filed id p found).1] at gone'
    exact later.placed.ne_of_gone gone' found rfl
  · intro running
    obtain ⟨p, found⟩ := later.placed.occupied id (by simp [place, running])
    exact later.placed.ne_of_gone gone' found rfl
  · rintro r hr rfl
    exact both.2.2 left (List.mem_map.mpr ⟨r, hr, rfl⟩)

/-- One process has stopped, one has run out of budget, one was killed while it ran and another one,
which still stands in the ready queue, while it waited; one is left. -/
theorem recorded_with_endings :
    ∃ granted events s, Run { slice := 1, maxReady := 2 } granted events s ∧
      s.ready.ids = [4, 3] ∧ s.running = none ∧ s.processCount = 1 ∧
      (Event.records events).map (fun r => (r.status.id, r.status.state, r.ending)) =
        [(0, .running, .completed), (1, .running, .timeLimit), (2, .running, .killed),
          (4, .ready, .killed)] ∧
      Recorded granted events s ∧ ∀ more es t, Further s more es t → ∀ id < s.table.nextId,
        s.table.isLive id = false →
          t.table.isLive id = false ∧ (∀ p ∈ t.processes, p.id ≠ id) ∧ t.running ≠ some id ∧
          ∀ r ∈ Event.records es, r.status.id ≠ id := by
  let load : String → Except Fault (List UInt8) := fun _ => .error .notFound
  let stop : Request := .submitImage ⟨1, .low, 0, "stop", []⟩
  let loop : Request := .submitImage ⟨1, .normal, 1, "loop", loopImage⟩
  have fresh : Run { slice := 1, maxReady := 2 } [] [] (init { slice := 1, maxReady := 2 }) :=
    .start
  have two := (fresh.serve load stop rfl).serve load loop rfl
  have created := ((two.serve load loop rfl).serve load loop rfl).serve load loop rfl
  have ticked := ((created.serve load .tick rfl).serve load .tick rfl).serve load .tick rfl
  have more := (ticked.serve load .tick rfl).serve load .tick rfl
  have run := (more.serve load (.kill 2) rfl).serve load (.kill 4) rfl
  exact ⟨_, _, _, run, by decide, by decide, by decide, by decide, recorded_of_run run⟩

end Scheduler

end Timeshare
