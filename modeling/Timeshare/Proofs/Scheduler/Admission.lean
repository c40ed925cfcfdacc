import Mathlib
import Timeshare.Proofs.Scheduler.Records
import Timeshare.Proofs.Scheduler.Rotation

/-!
# Admission

A process is admitted when the ready queue has room for it. A process that goes back to the ready
queue after its slice is not asked whether there is room, so within a tick the queue may hold one
more than its limit; but then it gives up its head before the tick is over (`length_ready_tick`).
All of a tick but its beginning leaves the line of those that wait for admission as it is
(`line_tick`), so what a tick does to the line is what the admission at its beginning does.
`gated_of_run` puts this together.
-/

namespace Timeshare

/-- The identifier that an event says was admitted. -/
def Event.admitted? : Event → Option ProcessId
  | admitted id => some id
  | _ => none

/-- The identifiers that were admitted among some events, in order. -/
def Event.admissions (events : List Event) : List ProcessId := events.filterMap admitted?

@[simp] theorem Event.admissions_append (es fs : List Event) :
    admissions (es ++ fs) = admissions es ++ admissions fs := List.filterMap_append

/-- Whoever has a turn, the line stays as it is. -/
theorem Rotation.waiting_turn (r : Rotation) (stays : ProcessId → Bool) :
    (r.turn stays).waiting = r.waiting := by
  unfold turn
  split <;> rfl

namespace Scheduler

variable {s : Scheduler} {id : ProcessId}

/-! ## The length of the ready queue -/

theorem length_ready_makeReady (s : Scheduler) (id : ProcessId) :
    (s.makeReady id).ready.length = s.ready.length + 1 := by
  simp [makeReady, Queue.length]

/-- An admission takes the last place at most. -/
theorem length_ready_admitNext (h : s.ready.length ≤ s.config.maxReady) :
    s.admitNext.value.ready.length ≤ s.config.maxReady := by
  by_cases full : s.config.maxReady ≤ s.ready.length
  · rw [admitNext_of_full full]
    exact h
  · have room := Nat.lt_of_not_le full
    rcases s.admission.gone_or_split s.table.isLive with dead | ⟨gone, id, rest, split, dead, live⟩
    · rw [admitNext_of_gone room dead]
      exact h
    · rw [admitNext_of_split room split dead live, length_ready_makeReady]
      exact room

/-- A dispatch takes at least the head away. -/
theorem length_ready_dispatch (s : Scheduler) :
    s.dispatch.value.ready.length ≤ s.ready.length - 1 := by
  rcases s.ready.gone_or_split s.table.isLive with dead | ⟨gone, id, rest, split, dead, live⟩
  · rw [dispatch_of_gone dead]
    exact Nat.zero_le _
  · rw [dispatch_of_split split dead live]
    simp only [seat, Queue.length, split, List.length_append, List.length_cons]
    omega

theorem ready_runSlice (s : Scheduler) (id : ProcessId) :
    (s.runSlice id).value.ready = s.ready := by
  unfold runSlice
  split
  · rfl
  · simp only [Traced.value_bind]
    split <;> rfl

theorem length_ready_requeue (s : Scheduler) :
    s.requeue.value.ready.length ≤ s.ready.length + 1 := by
  unfold Scheduler.requeue
  split
  · exact Nat.le_succ _
  · exact (length_ready_makeReady _ _).le

theorem length_ready_seated (h : s.ready.length ≤ s.config.maxReady) :
    s.seated.value.ready.length ≤ s.config.maxReady := by
  have admitted := length_ready_admitNext h
  rw [seated, Traced.value_bind]
  split
  · have dispatched := length_ready_dispatch s.admitNext.value
    omega
  · exact admitted

/-- Who goes back to the ready queue takes a place that the dispatch after it gives up again. -/
theorem length_ready_serve (s : Scheduler) (id : ProcessId) :
    (s.serve id).value.ready.length ≤ s.ready.length := by
  have requeued := length_ready_requeue (s.runSlice id).value
  have dispatched := length_ready_dispatch (s.runSlice id).value.requeue.value
  rw [ready_runSlice] at requeued
  rw [serve, Traced.value_bind, Traced.value_bind]
  omega

/-- Between ticks the ready queue keeps to its limit. -/
theorem length_ready_tick (h : s.ready.length ≤ s.config.maxReady) :
    s.tick.value.ready.length ≤ s.config.maxReady := by
  have seated := length_ready_seated h
  cases turn : s.turn? with
  | none =>
    rw [tick_eq_of_idle turn]
    exact seated
  | some id =>
    rw [tick_eq_of_turn turn]
    exact (length_ready_serve _ _).trans seated

theorem Chronicle.length_ready_le {config : Config} {granted : List Submission}
    {events : List Event} (h : Chronicle config granted events s) :
    s.ready.length ≤ s.config.maxReady := by
  induction h with
  | start => exact Nat.zero_le _
  | refuse _ _ ih => exact ih
  | create _ _ _ ih => exact ih
  | kill _ _ ih => exact ih
  | tick _ ih =>
    rw [(moves_tick _).config_eq]
    exact length_ready_tick ih

/-! ## The line -/

/-- What leaves the line as it is and admits nobody. -/
structure PassesBy (s : Scheduler) (t : Traced Scheduler) : Prop where
  line : t.value.admission = s.admission
  nobody : Event.admissions t.events = []

theorem PassesBy.bind {t : Traced Scheduler} {f : Scheduler → Traced Scheduler}
    (first : s.PassesBy t) (later : t.value.PassesBy (f t.value)) : s.PassesBy (t >>= f) where
  line := later.line.trans first.line
  nobody := by
    rw [Traced.events_bind, Event.admissions_append, first.nobody, later.nobody, List.append_nil]

theorem passesBy_dispatch (s : Scheduler) : s.PassesBy s.dispatch := by
  rcases s.ready.gone_or_split s.table.isLive with dead | ⟨gone, id, rest, split, dead, live⟩
  · rw [dispatch_of_gone dead]
    exact ⟨rfl, by simp [Event.admissions, Event.admitted?]⟩
  · rw [dispatch_of_split split dead live]
    exact ⟨rfl, by simp [Event.admissions, Event.admitted?]⟩

theorem passesBy_requeue (s : Scheduler) : s.PassesBy s.requeue := by
  unfold Scheduler.requeue
  split <;> exact ⟨rfl, rfl⟩

theorem passesBy_runSlice (s : Scheduler) (id : ProcessId) : s.PassesBy (s.runSlice id) := by
  unfold runSlice
  split
  · exact ⟨rfl, rfl⟩
  · simp only [Bind.bind, Traced.andThen]
    split
    · exact ⟨rfl, by simp [Event.admissions, Event.admitted?]⟩
    · exact ⟨rfl, by simp [Event.admissions, Event.admitted?, terminate_eq]⟩

theorem passesBy_serve (s : Scheduler) (id : ProcessId) : s.PassesBy (s.serve id) :=
  (passesBy_runSlice s id).bind ((passesBy_requeue _).bind (passesBy_dispatch _))

/-- What a tick does to the line is what the admission at its beginning does. -/
theorem line_tick (s : Scheduler) :
    s.tick.value.admission = s.admitNext.value.admission ∧
      Event.admissions s.tick.events = Event.admissions s.admitNext.events := by
  have seated : s.seated.value.admission = s.admitNext.value.admission ∧
      Event.admissions s.seated.events = Event.admissions s.admitNext.events := by
    cases running : s.running with
    | some id => rw [seated_of_running running]; exact ⟨rfl, rfl⟩
    | none =>
      have dispatched := passesBy_dispatch s.admitNext.value
      rw [seated_of_free running, Traced.value_bind, Traced.events_bind, Event.admissions_append,
        dispatched.nobody, List.append_nil]
      exact ⟨dispatched.line, rfl⟩
  cases turn : s.turn? with
  | none =>
    rw [tick_eq_of_idle turn]
    exact seated
  | some id =>
    have served := passesBy_serve s.seated.value id
    rw [tick_eq_of_turn turn, Event.admissions_append, served.nobody, List.append_nil]
    exact ⟨served.line.trans seated.1, seated.2⟩

/-! ## Who is new -/

/-- A process that waits for admission. -/
def IsNew (s : Scheduler) (id : ProcessId) : Prop :=
  ∃ p, s.table.get? id = some p ∧ p.state = .new

theorem Placed.isNew_iff (h : s.Placed) : s.IsNew id ↔ id ∈ s.rotation.waiting := by
  rw [rotation, List.mem_filter]
  constructor
  · rintro ⟨p, found, new⟩
    exact ⟨(h.state_iff id p found .new).mp new, h.isLive_iff.mpr ⟨p, found⟩⟩
  · rintro ⟨waits, live⟩
    obtain ⟨p, found⟩ := h.isLive_iff.mp live
    exact ⟨p, found, (h.state_iff id p found .new).mpr waits⟩

/-- After a tick those are new who were so, but for the head of the line if there was room. -/
theorem isNew_tick (h : s.Placed) :
    s.tick.value.IsNew id ↔ id ∈ (s.rotation.enter s.hasRoom).waiting := by
  rw [((moves_tick s).placed h).isNew_iff, rotation_tick h, Rotation.waiting_turn]

/-- Whoever is not new is ready or holds the processor. -/
theorem count_active_le (h : s.Placed) (nodup : (s.processes.map Process.id).Nodup) :
    (s.processes.filter fun p => p.state ≠ .new).length ≤ s.ready.length + 1 := by
  let active := s.processes.filter fun p => p.state ≠ .new
  have distinct : (active.map Process.id).Nodup :=
    nodup.sublist (List.filter_sublist.map Process.id)
  have placed : active.map Process.id ⊆ s.ready.ids ++ s.running.toList := by
    intro id hid
    obtain ⟨p, hp, rfl⟩ := List.mem_map.mp hid
    obtain ⟨alive, started⟩ := List.mem_filter.mp hp
    obtain ⟨id, found⟩ := Table.mem_processes.mp alive
    obtain ⟨rfl, -⟩ := h.filed id p found
    have stands := h.mem_place found
    cases state : p.state with
    | new => simp [state] at started
    | ready => exact List.mem_append_left _ (by simpa [place, state] using stands)
    | running => exact List.mem_append_right _ (by simpa [place, state] using stands)
  have few := (distinct.subperm placed).length_le
  have one : s.running.toList.length ≤ 1 := by cases s.running <;> simp
  rw [List.length_map, List.length_append] at few
  exact few.trans (Nat.add_le_add_left one _)

/-! ## The gate -/

/-- A tick takes some processes that are gone from the head of the line, and then one that is alive
if there is any: it is admitted, and everybody else who is new stays so. -/
structure Admits (s : Scheduler) (gone : List ProcessId) (next : Option ProcessId) : Prop where
  line : s.admission.ids = gone ++ next.toList ++ s.tick.value.admission.ids
  dead : ∀ id ∈ gone, s.table.isLive id = false
  alive : ∀ id ∈ next, s.IsNew id
  /-- Without anybody alive the line is used up. -/
  used : next = none → s.tick.value.admission.ids = []
  admissions : Event.admissions s.tick.events = next.toList
  others : ∀ id, s.tick.value.IsNew id ↔ s.IsNew id ∧ id ∉ next

/-- Everybody in the line is gone. -/
theorem admits_of_gone (placed : s.Placed) (room : s.ready.length < s.config.maxReady)
    (dead : ∀ id ∈ s.admission.ids, s.table.isLive id = false) :
    s.Admits s.admission.ids none := by
  obtain ⟨line, admissions⟩ := line_tick s
  have nobody : s.rotation.waiting = [] := by
    simpa [rotation, List.filter_eq_nil_iff] using dead
  rw [admitNext_of_gone room dead] at line admissions
  constructor
  case line => simp [line]
  case dead => exact dead
  case alive => simp
  case used => simp [line]
  case admissions =>
    rw [admissions]
    simp [Event.admissions, Event.admitted?]
  case others =>
    intro id
    rw [isNew_tick placed, placed.isNew_iff, Rotation.enter, nobody]
    simp [nobody]

/-- Behind those who are gone somebody is alive. -/
theorem admits_of_split {gone rest : List ProcessId} (placed : s.Placed)
    (room : s.ready.length < s.config.maxReady) (split : s.admission.ids = gone ++ id :: rest)
    (dead : ∀ other ∈ gone, s.table.isLive other = false) (live : s.table.isLive id = true) :
    s.Admits gone (some id) := by
  obtain ⟨line, admissions⟩ := line_tick s
  have opened : s.hasRoom = true := decide_eq_true room
  have before : gone.filter s.table.isLive = [] := by
    simpa [List.filter_eq_nil_iff] using dead
  have waiting : s.rotation.waiting = id :: rest.filter s.table.isLive := by
    simp [rotation, split, before, live]
  have once : id ∉ rest.filter s.table.isLive := by
    have nodup := (List.nodup_append'.mp placed.nodup_rotation).2.1
    rw [waiting] at nodup
    exact (List.nodup_cons.mp nodup).1
  rw [admitNext_of_split room split dead live] at line admissions
  constructor
  case line => simp [line, split, makeReady]
  case dead => exact dead
  case alive =>
    rintro _ ⟨⟩
    rw [placed.isNew_iff, waiting]
    exact List.mem_cons_self
  case used => simp
  case admissions =>
    rw [admissions]
    simp [Event.admissions, Event.admitted?]
  case others =>
    intro other
    rw [isNew_tick placed, placed.isNew_iff, Rotation.enter, waiting, opened]
    by_cases same : other = id
    · subst same
      simpa using once
    · simp [same, Ne.symm same]

/-- Nobody is new any less after a tick that begins without room. -/
theorem isNew_tick_of_full (placed : s.Placed) (full : s.config.maxReady ≤ s.ready.length) :
    s.tick.value.IsNew id ↔ s.IsNew id := by
  have closed : s.hasRoom = false := decide_eq_false (Nat.not_lt_of_le full)
  have same : s.rotation.enter s.hasRoom = s.rotation := by
    rw [Rotation.enter, closed]
    split <;> rfl
  rw [isNew_tick placed, same, placed.isNew_iff]

/-- What passes between the line and the ready queue. -/
structure Gated (s : Scheduler) : Prop where
  /-- The ready queue keeps to its limit; everybody in it counts, also who is gone. -/
  limit : s.ready.length ≤ s.config.maxReady
  /-- So at most one process more than that is no longer new. -/
  active : (s.processes.filter fun p => p.state ≠ .new).length ≤ s.config.maxReady + 1
  /-- If the ready queue is full, a tick leaves the line as it is, and whoever is new stays so. -/
  closed : s.config.maxReady ≤ s.ready.length → s.tick.value.admission = s.admission ∧
    Event.admissions s.tick.events = [] ∧ ∀ id, s.tick.value.IsNew id ↔ s.IsNew id
  /-- If it has room, a tick admits the first one of the line who is alive, and nobody else. -/
  opened : s.ready.length < s.config.maxReady → ∃ gone next, s.Admits gone next

/-- After any requests the ready queue is within its limit, and the gate to it works as it
should. -/
theorem gated_of_run {config : Config} {granted : List Submission} {events : List Event}
    (run : Run config granted events s) : s.config = config ∧ Gated s := by
  have placed := run.history.placed
  have limit := run.chronicle.length_ready_le
  refine ⟨run.history.config_eq, limit, ?_, ?_, ?_⟩
  · have ids := run.history.accounted.nodup_iff.mpr List.nodup_range
    exact (count_active_le placed (List.nodup_append'.mp ids).2.1).trans (Nat.succ_le_succ limit)
  · intro full
    obtain ⟨line, admissions⟩ := line_tick s
    rw [admitNext_of_full full] at line admissions
    exact ⟨line, admissions, fun id => isNew_tick_of_full placed full⟩
  · intro room
    rcases s.admission.gone_or_split s.table.isLive with dead | ⟨gone, id, rest, split, dead, live⟩
    · exact ⟨_, none, admits_of_gone placed room dead⟩
    · exact ⟨gone, some id, admits_of_split placed room split dead live⟩

/-- The ready queue has room, and the line is headed by a process that was killed. -/
theorem gated_with_gone :
    ∃ granted events s, Run { slice := 1, maxReady := 2 } granted events s ∧
      s.ready.ids = [2] ∧ s.admission.ids = [3, 4, 5] ∧ s.table.isLive 3 = false ∧
      s.IsNew 4 ∧ s.config = { slice := 1, maxReady := 2 } ∧ Gated s := by
  let load : String → Except Fault (List UInt8) := fun _ => .error .notFound
  let submit : Request := .submitImage ⟨1, .normal, 9, "loop", loopImage⟩
  have fresh : Run { slice := 1, maxReady := 2 } [] [] (init { slice := 1, maxReady := 2 }) :=
    .start
  have two := (fresh.serve load submit rfl).serve load submit rfl
  have four := (two.serve load submit rfl).serve load submit rfl
  have created := (four.serve load submit rfl).serve load submit rfl
  have ticked := ((created.serve load .tick rfl).serve load .tick rfl).serve load .tick rfl
  have killed := (ticked.serve load (.kill 3) rfl).serve load (.kill 0) rfl
  have run := killed.serve load .tick rfl
  exact ⟨_, _, _, run, by decide, by decide, by decide, ⟨_, rfl, rfl⟩, gated_of_run run⟩

end Scheduler

end Timeshare
