import Mathlib
import Timeshare.Proofs.Scheduler.Records
import Timeshare.Proofs.Scheduler.Rotation

/-!
# First come, first started

Identifiers number the submissions, and processes are admitted and start in the order of their
identifiers. For the admission this is so because the line is sorted and everybody who has left it
comes before all who stand in it (`Lined`). For the first instruction it is so because those who are
still to carry it out stand sorted in the round and the line, behind all who have (`InTurn`): a
process goes to the end of the round only after a slice, and then it has started.
`precedence_of_run` says what this means for two processes.
-/

namespace Timeshare

theorem Event.IsRefusal.executions_eq_zero {e : Event} (h : e.IsRefusal) (id : ProcessId) :
    executions id [e] = 0 := by
  rcases h with rfl | ⟨path, fault, rfl⟩ <;> rfl

/-- Whoever enters goes from the head of the line to the end of the round. -/
theorem Rotation.turns_append_waiting_enter (r : Rotation) (room : Bool) :
    (r.enter room).turns ++ (r.enter room).waiting = r.turns ++ r.waiting := by
  unfold enter
  split
  · rfl
  case h_2 id rest waiting =>
    cases room with
    | true => simp [waiting]
    | false => rfl

namespace Scheduler

variable {s t : Scheduler} {config : Config} {granted : List Submission} {events es : List Event}
  {id i j : ProcessId} {p : Process} {q : Status → Prop}

/-! ## What shows of a process -/

/-- What the last status of a process tells: in the table while it is alive, on its record when it
is gone. -/
def Shows (events : List Event) (s : Scheduler) (id : ProcessId) (q : Status → Prop) : Prop :=
  (∃ p, s.table.get? id = some p ∧ q p.status) ∨
    ∃ r ∈ Event.records events, r.status.id = id ∧ q r.status

/-- A process has carried out an instruction. -/
def HasStarted (events : List Event) (s : Scheduler) (id : ProcessId) : Prop :=
  s.Shows events id fun status => status.executed ≠ 0

/-- A process is no longer new, or was no longer new when it ended. -/
def HasEntered (events : List Event) (s : Scheduler) (id : ProcessId) : Prop :=
  s.Shows events id fun status => status.state ≠ .new

/-- Without new records it is the table that tells. -/
theorem Shows.of_table (h : t.Shows (events ++ es) id q) (records : Event.records es = [])
    (table : ∀ p, t.table.get? id = some p → q p.status → s.Shows events id q) :
    s.Shows events id q := by
  rcases h with ⟨p, found, shown⟩ | recorded
  · exact table p found shown
  · rw [Event.records_append, records, List.append_nil] at recorded
    exact .inr recorded

/-- Whoever leaves a record shows on it what shows in the table. -/
theorem Shows.of_departure {r : Record} (h : t.Shows (events ++ es) id q)
    (records : Event.records es = [r])
    (table : ∀ p, t.table.get? id = some p → s.table.get? id = some p)
    (left : r.status.id = id → q r.status → s.Shows events id q) : s.Shows events id q := by
  rcases h with ⟨p, found, shown⟩ | ⟨r, hr, own, shown⟩
  · exact .inl ⟨p, table p found, shown⟩
  · rw [Event.records_append, records, List.mem_append, List.mem_singleton] at hr
    rcases hr with before | rfl
    · exact .inr ⟨r, before, own, shown⟩
    · exact left own shown

/-- A change of state shows on whoever it befalls only. -/
theorem Shows.of_update {state : ProcessState} (h : t.Shows (events ++ es) id q)
    (records : Event.records es = [])
    (table : t.table = s.table.update i fun p => { p with state := state })
    (own : id = i → s.Shows events id q) : s.Shows events id q := by
  refine h.of_table records fun p found shown => ?_
  rw [table, Table.get?_update] at found
  by_cases same : id = i
  · exact own same
  · rw [if_neg same] at found
    exact .inl ⟨p, found, shown⟩

/-- Only a process that was created shows anything. -/
theorem History.lt_nextId_of_shows (h : History config granted events s)
    (shows : s.Shows events id q) : id < s.table.nextId := by
  rcases shows with ⟨p, found, -⟩ | ⟨r, hr, rfl, -⟩
  · exact Table.lt_nextId_of_get? found
  · exact (h.faithful.recorded r hr).1

/-! ## The line -/

/-- The line is sorted, and whoever has left it alive comes before all who stand in it. -/
structure Lined (events : List Event) (s : Scheduler) : Prop where
  sorted : s.admission.ids.Pairwise (· < ·)
  behind : ∀ i ∈ s.admission.ids, ∀ j, s.HasEntered events j → j < i

namespace Lined

/-- The line gets shorter at most, and nobody enters. -/
theorem shrink (h : Lined events s) (sublist : t.admission.ids.Sublist s.admission.ids)
    (old : ∀ j, t.HasEntered (events ++ es) j → s.HasEntered events j) :
    Lined (events ++ es) t where
  sorted := h.sorted.sublist sublist
  behind := fun i hi j entered => h.behind i (sublist.subset hi) j (old j entered)

/-- The head of the line enters. -/
theorem promote {rest : List ProcessId} (h : Lined events s)
    (head : s.admission.ids = id :: rest) :
    Lined (events ++ [.admitted id]) ({ s with admission := ⟨rest⟩ }.makeReady id) := by
  have sorted := h.sorted
  rw [head, List.pairwise_cons] at sorted
  constructor
  case sorted => exact sorted.2
  case behind =>
    intro i hi j entered
    by_cases first : j = id
    · subst first
      exact sorted.1 i hi
    · have old : s.HasEntered events j :=
        Shows.of_update entered rfl rfl fun same => absurd same first
      exact h.behind i (by rw [head]; exact List.mem_cons_of_mem _ hi) j old

/-- A new process takes the last place. -/
theorem create (h : Lined events s) (past : History config granted events s)
    (submission : Submission) :
    Lined (events ++ [.created s.table.nextId submission.name submission.user])
      (s.create submission) := by
  have old : ∀ j, (s.create submission).HasEntered
      (events ++ [.created s.table.nextId submission.name submission.user]) j →
        s.HasEntered events j := by
    intro j entered
    refine Shows.of_table entered rfl fun p found shown => ?_
    rw [Scheduler.create, Table.get?_insert] at found
    by_cases same : j = s.table.nextId
    · rw [if_pos same] at found
      cases Option.some.inj found
      exact absurd rfl shown
    · rw [if_neg same] at found
      exact .inl ⟨p, found, shown⟩
  constructor
  case sorted =>
    simp only [Scheduler.create, Queue.ids_enqueue]
    refine List.pairwise_append.mpr ⟨h.sorted, List.pairwise_singleton _ _, ?_⟩
    intro i hi last hlast
    rw [List.mem_singleton.mp hlast]
    exact past.placed.issued i (mem_queued.mpr ⟨.new, hi⟩)
  case behind =>
    intro i hi j entered
    rcases List.mem_append.mp hi with waits | last
    · exact h.behind i waits j (old j entered)
    · rw [List.mem_singleton.mp last]
      exact past.lt_nextId_of_shows (old j entered)

theorem kill (h : Lined events s) (placed : s.Placed) (found : s.table.get? id = some p) :
    Lined (events ++ [.terminated ⟨p.status, .killed⟩]) (s.without p) := by
  obtain ⟨rfl, -⟩ := placed.filed id p found
  refine h.shrink (.refl _) fun j entered => ?_
  refine Shows.of_departure entered rfl (fun other hother => ?_) fun own shown => ?_
  · rw [without, Table.get?_remove] at hother
    split at hother
    · cases hother
    · exact hother
  · exact .inl ⟨p, by rw [← own]; exact found, shown⟩

/-- Every move keeps the line sorted and behind all who have left it. -/
theorem move (h : Lined events s) (placed : s.Placed) (move : Move s es t) :
    Lined (events ++ es) t := by
  -- A process in the ready queue or on the processor has entered before.
  have entered : ∀ {id : ProcessId} {p : Process} {state : ProcessState},
      s.table.get? id = some p → id ∈ s.place state → state ≠ .new → s.HasEntered events id := by
    intro id p state found stands other
    have same := (placed.state_iff id p found state).mpr stands
    exact .inl ⟨p, found, fun new => other (same.symm.trans new)⟩
  cases move with
  | @discard id rest head gone =>
    refine h.shrink ?_ fun j shown =>
      Shows.of_table shown rfl fun p found old => .inl ⟨p, found, old⟩
    rw [head]
    exact List.sublist_cons_self _ _
  | @promote id rest head live => exact h.promote head
  | skip =>
    exact h.shrink (.refl _) fun j shown =>
      Shows.of_table shown rfl fun p found old => .inl ⟨p, found, old⟩
  | @dispatch id rest free head live =>
    obtain ⟨p, found⟩ := placed.isLive_iff.mp live
    have ready : id ∈ s.place .ready := by simp [place, head]
    refine h.shrink (.refl _) fun j shown => Shows.of_update shown rfl rfl ?_
    rintro rfl
    exact entered found ready (by simp)
  | @requeue id running =>
    have runs : id ∈ s.place .running := by simp [place, running]
    obtain ⟨p, found⟩ := placed.occupied id runs
    refine h.shrink (.refl _) fun j shown => Shows.of_update shown rfl rfl ?_
    rintro rfl
    exact entered found runs (by simp)
  | @execute id p running found goes =>
    have runs : id ∈ s.place .running := by simp [place, running]
    refine h.shrink (.refl _) fun j shown => Shows.of_table shown rfl fun q hq old => ?_
    rw [get?_advance p.step found] at hq
    by_cases same : j = id
    · subst same
      exact entered found runs (by simp)
    · rw [if_neg same] at hq
      exact .inl ⟨q, hq, old⟩
  | @finish id p ending running found ends =>
    obtain ⟨rfl, -⟩ := placed.filed id p found
    have runs : p.id ∈ s.place .running := by simp [place, running]
    refine h.shrink (.refl _) fun j shown => ?_
    refine Shows.of_departure shown rfl (fun q hq => ?_) fun own _ => ?_
    · rw [table_without_advance s p.id p.step rfl, Table.get?_remove] at hq
      split at hq
      · cases hq
      · exact hq
    · obtain rfl : p.id = j := own
      exact entered found runs (by simp)

end Lined

theorem History.lined (h : History config granted events s) : Lined events s := by
  induction h with
  | start => exact ⟨List.Pairwise.nil, fun _ hi => absurd hi List.not_mem_nil⟩
  | refuse _ refusal ih =>
    refine ih.shrink (.refl _) fun j shown => ?_
    have records : Event.records [_] = [] :=
      List.filterMap_cons_none refusal.record?_eq_none
    exact Shows.of_table shown records fun p found old => .inl ⟨p, found, old⟩
  | create submission past _ ih => exact ih.create past submission
  | kill past found ih => exact ih.kill past.placed found
  | move past move ih => exact ih.move past.placed move

/-! ## The first instruction -/

/-- A process has started if an instruction of it is among the events. -/
theorem History.hasStarted_iff (h : History config granted events s) :
    s.HasStarted events id ↔ 0 < Event.executions id events := by
  have faithful := h.faithful
  have counted : ∀ submission : Submission,
      (Process.step^[Event.executions id events] (submission.process id)).executed ≠ 0 ↔
        0 < Event.executions id events := by
    intro submission
    have count := Process.toNat_executed_iterate (submission.process id)
      (Event.executions id events)
    have fresh : (submission.process id).executed.toNat = 0 := rfl
    rw [Ne, ← UInt32.toNat_inj, count, fresh, UInt32.toNat_zero]
    omega
  have alive : ∀ p, s.table.get? id = some p →
      (p.status.executed ≠ 0 ↔ 0 < Event.executions id events) := by
    intro p found
    obtain ⟨submission, -, bare, -⟩ := faithful.alive id p found
    rw [← counted submission, ← bare]
    rfl
  have recorded : ∀ r ∈ Event.records events, r.status.id = id →
      (r.status.executed ≠ 0 ↔ 0 < Event.executions id events) := by
    rintro r hr rfl
    obtain ⟨-, -, submission, -, status, -⟩ := faithful.recorded r hr
    have executed : r.status.executed = (Process.step^[Event.executions r.status.id events]
        (submission.process r.status.id)).executed := congrArg Status.executed status
    rw [executed, counted]
  constructor
  · rintro (⟨p, found, shown⟩ | ⟨r, hr, own, shown⟩)
    · exact (alive p found).mp shown
    · exact (recorded r hr own).mp shown
  · intro started
    have created : id < s.table.nextId := by
      by_contra later
      rw [faithful.fresh id (Nat.le_of_not_lt later)] at started
      exact absurd started (Nat.lt_irrefl 0)
    cases found : s.table.get? id with
    | some p => exact .inl ⟨p, found, (alive p found).mpr started⟩
    | none =>
      obtain ⟨r, hr, own⟩ := faithful.ended id created found
      exact .inr ⟨r, hr, own, (recorded r hr own).mpr started⟩

/-- Everybody who is alive, in the order in which the first instructions are due. -/
def upcoming (s : Scheduler) : List ProcessId := s.rotation.turns ++ s.rotation.waiting

theorem upcoming_eq (s : Scheduler) : s.upcoming =
    (s.rotation.enter s.hasRoom).turns ++ (s.rotation.enter s.hasRoom).waiting :=
  (Rotation.turns_append_waiting_enter s.rotation s.hasRoom).symm

theorem upcoming_tick_of_nil (placed : s.Placed)
    (turns : (s.rotation.enter s.hasRoom).turns = []) : s.tick.value.upcoming = s.upcoming := by
  rw [upcoming, rotation_tick placed, Rotation.turn_of_nil turns, upcoming_eq]

/-- A tick moves or removes the first one, and leaves the others as they are. -/
theorem upcoming_tick_of_cons {rest : List ProcessId} (placed : s.Placed)
    (turns : (s.rotation.enter s.hasRoom).turns = id :: rest) :
    ∃ others, s.upcoming = id :: others ∧ s.tick.value.upcoming.filter (· ≠ id) = others := by
  have before : s.upcoming = id :: (rest ++ (s.rotation.enter s.hasRoom).waiting) := by
    rw [upcoming_eq, turns, List.cons_append]
  refine ⟨_, before, ?_⟩
  have nodup : s.upcoming.Nodup := placed.nodup_rotation
  rw [before] at nodup
  have absent := (List.nodup_cons.mp nodup).1
  rw [List.mem_append, not_or] at absent
  have kept (ids : List ProcessId) (missing : id ∉ ids) :
      ids.filter (fun other => !decide (other = id)) = ids := by
    rw [List.filter_eq_self]
    intro other hother
    simpa using ne_of_mem_of_not_mem hother missing
  rw [upcoming, rotation_tick placed, Rotation.turn_of_cons turns]
  by_cases stays : s.outlasts id <;>
    simp [stays, List.filter_append, kept rest absent.1, kept _ absent.2]

/-- Those who are still to carry out their first instruction stand sorted, behind all who have. -/
structure InTurn (events : List Event) (s : Scheduler) : Prop where
  sorted : (s.upcoming.filter fun id => Event.executions id events = 0).Pairwise (· < ·)
  behind : ∀ i ∈ s.upcoming, Event.executions i events = 0 →
    ∀ j, 0 < Event.executions j events → j < i

namespace InTurn

/-- Nobody carries out an instruction, and nobody comes. -/
theorem shrink (h : InTurn events s) (sublist : t.upcoming.Sublist s.upcoming)
    (rest : ∀ id, Event.executions id es = 0) : InTurn (events ++ es) t := by
  have same : ∀ id, Event.executions id (events ++ es) = Event.executions id events := by
    intro id
    rw [Event.executions_append, rest, Nat.add_zero]
  constructor
  case sorted =>
    simp only [same]
    exact h.sorted.sublist (sublist.filter _)
  case behind =>
    intro i hi unstarted j started
    rw [same] at unstarted started
    exact h.behind i (sublist.subset hi) unstarted j started

/-- A new process is last. -/
theorem create (h : InTurn events s) (past : History config granted events s)
    (submission : Submission) :
    InTurn (events ++ [.created s.table.nextId submission.name submission.user])
      (s.create submission) := by
  have faithful := past.faithful
  have same : ∀ id, Event.executions id
      (events ++ [.created s.table.nextId submission.name submission.user]) =
        Event.executions id events := by
    intro id
    rw [Event.executions_append]
    rfl
  have upcoming : (s.create submission).upcoming = s.upcoming ++ [s.table.nextId] := by
    rw [Scheduler.upcoming, rotation_create past.placed, Rotation.join, Scheduler.upcoming,
      List.append_assoc]
  have issued : ∀ i ∈ s.upcoming, i < s.table.nextId := by
    intro i hi
    obtain ⟨p, found⟩ := past.placed.isLive_iff.mp (past.placed.mem_rotation_iff.mp hi)
    exact Table.lt_nextId_of_get? found
  constructor
  case sorted =>
    simp only [same, upcoming, List.filter_append]
    refine List.pairwise_append.mpr ⟨h.sorted, ?_, ?_⟩
    · exact (List.pairwise_singleton _ _).sublist List.filter_sublist
    · intro i hi last hlast
      rw [List.mem_singleton.mp (List.mem_of_mem_filter hlast)]
      exact issued i (List.mem_of_mem_filter hi)
  case behind =>
    intro i hi unstarted j started
    rw [same] at unstarted started
    rw [upcoming] at hi
    rcases List.mem_append.mp hi with before | last
    · exact h.behind i before unstarted j started
    · rw [List.mem_singleton.mp last]
      by_contra later
      rw [faithful.fresh j (Nat.le_of_not_lt later)] at started
      exact absurd started (Nat.lt_irrefl 0)

/-- A tick lets the first one start, if it has not, and then it stands in nobody's way. -/
theorem tick (h : InTurn events s) (placed : s.Placed) (slice : 1 ≤ s.config.slice) :
    InTurn (events ++ s.tick.events) s.tick.value := by
  have head := turn?_eq_head? s
  cases turns : (s.rotation.enter s.hasRoom).turns with
  | nil =>
    rw [turns] at head
    refine h.shrink ?_ (executions_tick_of_idle head)
    rw [upcoming_tick_of_nil placed turns]
  | cons id rest =>
    rw [turns] at head
    obtain ⟨others, before, left⟩ := upcoming_tick_of_cons placed turns
    obtain ⟨p, -, slices⟩ := slices_of_turn placed head
    have own : 0 < Event.executions id (events ++ s.tick.events) := by
      rw [Event.executions_append, slices.executions, if_pos rfl]
      exact Nat.add_pos_right _ (Process.length_slice_pos slice)
    have unchanged : ∀ other, other ≠ id →
        Event.executions other (events ++ s.tick.events) = Event.executions other events := by
      intro other different
      rw [Event.executions_append, slices.executions, if_neg different, Nat.add_zero]
    have unstarted : (s.tick.value.upcoming.filter fun other =>
        Event.executions other (events ++ s.tick.events) = 0) =
          others.filter fun other => Event.executions other events = 0 := by
      rw [← left, List.filter_filter]
      refine List.filter_congr fun other _ => ?_
      by_cases first : other = id
      · simp [first, own.ne', -Event.executions_append]
      · simp [first, unchanged other first, -Event.executions_append]
    have sorted := h.sorted
    rw [before] at sorted
    constructor
    case sorted =>
      rw [unstarted]
      exact sorted.sublist ((List.sublist_cons_self id others).filter _)
    case behind =>
      intro i hi now j started
      have waits : i ∈ others.filter fun other => Event.executions other events = 0 := by
        rw [← unstarted]
        exact List.mem_filter.mpr ⟨hi, by simpa using now⟩
      have old : 0 < Event.executions j events → j < i := by
        obtain ⟨stands, before'⟩ := List.mem_filter.mp waits
        exact h.behind i (before ▸ List.mem_cons_of_mem _ stands) (by simpa using before') j
      by_cases first : j = id
      · subst first
        by_cases fresh : Event.executions j events = 0
        · rw [List.filter_cons_of_pos (by simpa using fresh), List.pairwise_cons] at sorted
          exact sorted.1 i waits
        · exact old (Nat.pos_of_ne_zero fresh)
      · rw [unchanged j first] at started
        exact old started

end InTurn

/-- With slices of no instruction nobody ever starts. -/
theorem Chronicle.executions_eq_zero (h : Chronicle config granted events s)
    (slice : config.slice = 0) (id : ProcessId) : Event.executions id events = 0 := by
  induction h with
  | start => rfl
  | refuse _ refusal ih =>
    rw [Event.executions_append, ih, refusal.executions_eq_zero]
  | create _ _ _ ih =>
    rw [Event.executions_append, ih]
    rfl
  | kill _ _ ih =>
    rw [Event.executions_append, ih]
    rfl
  | @tick granted events s past ih =>
    rw [Event.executions_append, ih, Nat.zero_add]
    cases turn : s.turn? with
    | none => exact executions_tick_of_idle turn id
    | some other =>
      obtain ⟨p, -, slices⟩ := slices_of_turn past.history.placed turn
      rw [slices.executions, past.history.config_eq, slice, Process.slice_zero]
      exact ite_self 0

theorem Chronicle.inTurn (h : Chronicle config granted events s) (slice : 1 ≤ config.slice) :
    InTurn events s := by
  induction h with
  | start => exact ⟨List.Pairwise.nil, fun _ hi => absurd hi List.not_mem_nil⟩
  | refuse _ refusal ih => exact ih.shrink (.refl _) refusal.executions_eq_zero
  | create submission past _ ih => exact ih.create past.history submission
  | kill past found ih =>
    refine ih.shrink ?_ fun id => rfl
    rw [upcoming, rotation_without past.history.placed found]
    exact (List.erase_sublist).append List.erase_sublist
  | tick past ih => exact ih.tick past.history.placed (past.history.config_eq ▸ slice)

/-- Whoever is alive and has not started comes behind all who have. -/
theorem Chronicle.lt_of_started (h : Chronicle config granted events s)
    (found : s.table.get? i = some p) (unstarted : Event.executions i events = 0)
    (started : 0 < Event.executions j events) : j < i := by
  have placed := h.history.placed
  rcases Nat.eq_zero_or_pos config.slice with none | slice
  · rw [h.executions_eq_zero none] at started
    exact absurd started (Nat.lt_irrefl 0)
  · have upcoming := placed.mem_rotation_iff.mpr (placed.isLive_iff.mpr ⟨p, found⟩)
    exact (h.inTurn slice).behind i upcoming unstarted j started

/-! ## Two processes -/

/-- Processes are admitted and start in the order in which they were submitted. -/
structure Precedence (events : List Event) (s : Scheduler) : Prop where
  /-- The line is in that order. -/
  line : s.admission.ids.Pairwise (· < ·)
  /-- If a process has started, so has everybody before it, unless it was killed. -/
  started : ∀ i j, i < j → s.HasStarted events j → s.HasStarted events i ∨
    ∃ r ∈ Event.records events, r.status.id = i ∧ r.ending = .killed
  /-- If a process is no longer new, nobody before it is, unless it is gone. -/
  entered : ∀ i j, i < j → s.HasEntered events j → s.HasEntered events i ∨
    s.table.isLive i = false ∧ ∃ r ∈ Event.records events, r.status.id = i

/-- After any requests everybody has been admitted and has started in the order of the
submissions. -/
theorem precedence_of_run (run : Run config granted events s) : Precedence events s := by
  have history := run.history
  have faithful := history.faithful
  have placed := history.placed
  constructor
  case line => exact history.lined.sorted
  case started =>
    intro i j earlier started
    have created := earlier.trans (history.lt_nextId_of_shows started)
    rw [history.hasStarted_iff] at started ⊢
    cases found : s.table.get? i with
    | some p =>
      left
      by_contra unstarted
      have later := run.chronicle.lt_of_started found (Nat.eq_zero_of_not_pos unstarted) started
      exact earlier.asymm later
    | none =>
      obtain ⟨r, hr, rfl⟩ := faithful.ended i created found
      obtain ⟨-, -, submission, -, -, ends⟩ := faithful.recorded r hr
      generalize Event.executions r.status.id events = k at ends ⊢
      generalize ending : r.ending = last at ends
      cases ends with
      | killed => exact .inr ⟨r, hr, rfl, ending⟩
      | last => exact .inl (Nat.succ_pos _)
  case entered =>
    intro i j earlier entered
    have created := earlier.trans (history.lt_nextId_of_shows entered)
    cases found : s.table.get? i with
    | some p =>
      refine .inl (.inl ⟨p, found, fun new => ?_⟩)
      have waits := (placed.state_iff i p found .new).mp new
      exact earlier.asymm (history.lined.behind i waits j entered)
    | none =>
      obtain ⟨r, hr, own⟩ := faithful.ended i created found
      exact .inr ⟨placed.isLive_eq_false_iff.mpr found, r, hr, own⟩

/-- The second of five processes was killed before it could start. The third one has started after
the first one, the fourth one waits for its first slice and the last one for its admission. -/
theorem precedence_with_killed :
    ∃ granted events s, Run { slice := 1, maxReady := 2 } granted events s ∧
      s.admission.ids = [4] ∧ s.HasStarted events 0 ∧ ¬ s.HasStarted events 1 ∧
      s.HasStarted events 2 ∧ s.HasEntered events 3 ∧ ¬ s.HasStarted events 3 ∧
      Precedence events s := by
  let load : String → Except Fault (List UInt8) := fun _ => .error .notFound
  let submit : Request := .submitImage ⟨1, .normal, 9, "loop", loopImage⟩
  have fresh : Run { slice := 1, maxReady := 2 } [] [] (init { slice := 1, maxReady := 2 }) :=
    .start
  have two := (fresh.serve load submit rfl).serve load submit rfl
  have four := (two.serve load submit rfl).serve load submit rfl
  have killed := (four.serve load submit rfl).serve load (.kill 1) rfl
  have ticked := ((killed.serve load .tick rfl).serve load .tick rfl).serve load .tick rfl
  refine ⟨_, _, _, ticked, by decide, .inl ⟨_, rfl, by decide⟩, ?_, .inl ⟨_, rfl, by decide⟩,
    .inl ⟨_, rfl, by decide⟩, ?_, precedence_of_run ticked⟩
  · rw [ticked.history.hasStarted_iff]
    decide
  · rw [ticked.history.hasStarted_iff]
    decide

end Scheduler

end Timeshare
