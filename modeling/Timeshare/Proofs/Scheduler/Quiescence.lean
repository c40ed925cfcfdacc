import Mathlib
import Timeshare.Proofs.Scheduler.Work

/-!
# Running until nothing is left

With a slice of at least one instruction, room for at least one ready process and budgets that can
be exceeded, the loop of ticks ends. Every tick but an idle one takes one from the work. An idle
tick in a settled scheduler leaves nothing, and every tick settles the scheduler, so only the first
and the last tick can be idle; none is when no queue holds a process that is gone.
-/

namespace Timeshare

namespace Scheduler

variable {s t : Scheduler} {id : ProcessId}

theorem isQuiescent_iff :
    s.isQuiescent = true ↔ s.running = none ∧ s.admission.ids = [] ∧ s.ready.ids = [] := by
  rw [isQuiescent, Bool.and_eq_true, Bool.and_eq_true, Queue.isEmpty_iff, Queue.isEmpty_iff,
    Option.isNone_iff_eq_none, and_assoc]

/-- When nothing runs and nothing waits, nobody is alive. -/
theorem Placed.processes_eq_nil (placed : s.Placed) (quiescent : s.isQuiescent = true) :
    s.processes = [] := by
  obtain ⟨free, unsubmitted, unready⟩ := isQuiescent_iff.mp quiescent
  refine List.eq_nil_iff_forall_not_mem.mpr fun p hp => ?_
  obtain ⟨id, found⟩ := Table.mem_processes.mp hp
  have waits : id ∈ s.queued := mem_queued.mpr ⟨p.state, placed.mem_place found⟩
  rw [queued, free, unsubmitted, unready] at waits
  exact absurd waits List.not_mem_nil

/-! ## Clean queues -/

/-- No place holds a process that is gone. -/
def Clean (s : Scheduler) : Prop := ∀ id ∈ s.queued, s.table.isLive id = true

theorem clean_of_queues (placed : s.Placed)
    (h : ∀ id ∈ s.admission.ids ++ s.ready.ids, s.table.isLive id = true) : s.Clean := by
  intro id hid
  rcases List.mem_append.mp hid with waits | runs
  · exact h id waits
  · exact placed.isLive_iff.mpr (placed.occupied id runs)

theorem Clean.relocate (clean : s.Clean) {state : ProcessState}
    (table : t.table = s.table.update id fun p => { p with state := state })
    (subset : t.queued ⊆ s.queued) : t.Clean := by
  intro other hother
  rw [table, Table.isLive_update_state]
  exact clean other (subset hother)

/-- A move leaves nobody behind in a queue: the process that ends is not in one. -/
theorem Move.clean {es : List Event} (move : Move s es t) (placed : s.Placed)
    (clean : s.Clean) : t.Clean := by
  cases move with
  | @discard id rest head gone =>
    have waits : id ∈ s.queued := by simp [queued, head]
    exact Bool.noConfusion (gone.symm.trans (clean id waits))
  | @skip id rest head gone =>
    have waits : id ∈ s.queued := by simp [queued, head]
    exact Bool.noConfusion (gone.symm.trans (clean id waits))
  | @promote id rest head live =>
    refine clean.relocate rfl fun other hother => ?_
    simp only [queued, makeReady, Queue.ids_enqueue, head, List.mem_append, List.mem_cons,
      List.not_mem_nil, or_false] at hother ⊢
    tauto
  | @dispatch id rest free head live =>
    refine clean.relocate rfl fun other hother => ?_
    simp only [queued, seat, head, free, Option.toList, List.mem_append, List.mem_cons,
      List.not_mem_nil, or_false] at hother ⊢
    tauto
  | @requeue id running =>
    refine clean.relocate rfl fun other hother => ?_
    simpa [queued, makeReady, running] using hother
  | @execute id p running found goes =>
    intro other hother
    have alive := clean other hother
    rw [(placed.advance found).isLive_iff, get?_advance p.step found]
    split
    · exact ⟨_, rfl⟩
    · exact placed.isLive_iff.mp alive
  | @finish id p ending running found ends =>
    obtain ⟨rfl, -⟩ := placed.filed id p found
    -- The one who ends held the processor, so its identifier waits nowhere.
    have freed : ((s.advance p.id p.step).without p.step).running = none := if_pos running
    intro other hother
    have waits : other ∈ s.admission.ids ++ s.ready.ids := by
      rw [queued, freed] at hother
      simpa [without, advance] using hother
    have different : other ≠ p.id := by
      rintro rfl
      have nodup := placed.nodup
      rw [queued, running, List.nodup_append'] at nodup
      exact nodup.2.2 waits (List.mem_singleton_self _)
    have same : ((s.advance p.id p.step).without p.step).table.get? other =
        s.table.get? other := by
      rw [table_without_advance s p.id p.step rfl, Table.get?_remove, if_neg different]
    rw [Table.isLive, same]
    exact clean other (List.mem_append_left _ waits)

theorem Moves.clean {es : List Event} (moves : Moves s es t) (placed : s.Placed)
    (clean : s.Clean) : t.Clean := by
  induction moves with
  | nil => exact clean
  | cons first _ ih => exact ih (first.placed placed) (first.clean placed clean)

/-! ## Idle ticks -/

/-- In a settled scheduler an idle tick is the last one: nothing is left. -/
theorem isQuiescent_tick_of_idle (settled : s.Settled) (room : 1 ≤ s.config.maxReady)
    (h : s.turn? = none) : s.tick.value.isQuiescent = true := by
  have free := (turn?_eq_none_iff.mp h).1
  have notFull : ¬ s.config.maxReady ≤ s.ready.length := by
    rw [Queue.length, settled free, List.length_nil]
    exact Nat.not_le_of_lt room
  rw [tick_of_idle h, if_neg notFull]
  exact isQuiescent_iff.mpr ⟨free, rfl, rfl⟩

/-- Nobody is left out when all who wait are alive: a tick is idle only if nothing is left. -/
theorem isQuiescent_of_clean (clean : s.Clean) (room : 1 ≤ s.config.maxReady)
    (h : s.turn? = none) : s.isQuiescent = true := by
  obtain ⟨free, unready, unable⟩ := turn?_eq_none_iff.mp h
  have nobody : ∀ ids : List ProcessId, ids ⊆ s.queued →
      (∀ id ∈ ids, s.table.isLive id = false) → ids = [] := by
    intro ids subset dead
    refine List.eq_nil_iff_forall_not_mem.mpr fun id hid => ?_
    exact Bool.noConfusion ((dead id hid).symm.trans (clean id (subset hid)))
  have ready : s.ready.ids = [] :=
    nobody _ (fun id hid => mem_queued.mpr ⟨.ready, hid⟩) unready
  have notFull : ¬ s.config.maxReady ≤ s.ready.length := by
    rw [Queue.length, ready, List.length_nil]
    exact Nat.not_le_of_lt room
  have admission : s.admission.ids = [] :=
    nobody _ (fun id hid => mem_queued.mpr ⟨.new, hid⟩) (unable.resolve_left notFull)
  exact isQuiescent_iff.mpr ⟨free, admission, ready⟩

/-! ## The loop -/

/-- What a scheduler needs so that its loop ends. -/
structure Drainable (s : Scheduler) : Prop where
  placed : s.Placed
  bounded : s.Bounded
  slice : 1 ≤ s.config.slice
  room : 1 ≤ s.config.maxReady

namespace Drainable

theorem tick (h : s.Drainable) : s.tick.value.Drainable := by
  have moves := moves_tick s
  constructor
  case placed => exact moves.placed h.placed
  case bounded => exact moves.bounded h.bounded
  case slice =>
    rw [moves.config_eq]
    exact h.slice
  case room =>
    rw [moves.config_eq]
    exact h.room

end Drainable

/-- The ticks of a loop: nothing is left after the last one and something before each of them. -/
def Loop (s : Scheduler) (n : Nat) : Prop :=
  (∀ m < n, (ticks m s).value.isQuiescent = false) ∧ (ticks n s).value.isQuiescent = true

namespace Loop

variable {n : Nat}

theorem zero (h : s.isQuiescent = true) : Loop s 0 :=
  ⟨fun _ hm => absurd hm (Nat.not_lt_zero _), h⟩

theorem cons (h : s.isQuiescent = false) (later : Loop s.tick.value n) : Loop s (n + 1) := by
  refine ⟨fun m hm => ?_, later.2⟩
  cases m with
  | zero => exact h
  | succ m => exact later.1 m (Nat.lt_of_succ_lt_succ hm)

theorem tail (h : Loop s (n + 1)) : Loop s.tick.value n :=
  ⟨fun m hm => h.1 (m + 1) (Nat.succ_lt_succ hm), h.2⟩

/-- A loop that is not cut short ends as it should. -/
theorem runWithin_eq {limit : Nat} (h : Loop s n) (hle : n ≤ limit) (past : List Event) :
    runWithin limit s past = some ⟨(ticks n s).value, past.reverse ++ (ticks n s).events⟩ := by
  induction n generalizing s limit past with
  | zero =>
    have quiescent : s.isQuiescent = true := h.2
    cases limit <;> simp [runWithin, quiescent, ticks]
  | succ n ih =>
    have unfinished : s.isQuiescent = false := h.1 0 (Nat.succ_pos n)
    cases limit with
    | zero => exact absurd hle (Nat.not_succ_le_zero n)
    | succ limit =>
      rw [runWithin, if_neg (by simp [unfinished]), ih h.tail (Nat.le_of_succ_le_succ hle)]
      simp [ticks]

/-- The ticks after each other in a loop without idle ticks are as many as the work. -/
theorem eq_work (h : Loop s n) (drainable : s.Drainable) (clean : s.Clean) :
    n = s.work ∧ ∀ m < n, ∃ id, (ticks m s).value.turn? = some id := by
  induction n generalizing s with
  | zero =>
    have nobody := drainable.placed.processes_eq_nil h.2
    exact ⟨by rw [work, nobody]; rfl, fun _ hm => absurd hm (Nat.not_lt_zero _)⟩
  | succ n ih =>
    have unfinished : s.isQuiescent = false := h.1 0 (Nat.succ_pos n)
    cases turn : s.turn? with
    | none =>
      have done := isQuiescent_of_clean clean drainable.room turn
      exact Bool.noConfusion (unfinished.symm.trans done)
    | some id =>
      have less := work_tick_of_turn drainable.placed drainable.bounded drainable.slice turn
      have later := ih h.tail drainable.tick ((moves_tick s).clean drainable.placed clean)
      refine ⟨by omega, fun m hm => ?_⟩
      cases m with
      | zero => exact ⟨id, turn⟩
      | succ m => exact later.2 m (Nat.lt_of_succ_lt_succ hm)

end Loop

/-- In a settled scheduler the loop ends, and only its last tick can be idle. -/
theorem exists_loop_of_settled (h : s.Drainable) (settled : s.Settled) :
    ∃ n ≤ s.work + 1, Loop s n ∧
      ∀ m < n, (ticks m s).value.turn? = none → m + 1 = n := by
  -- The work is the measure: the loop goes on only after a tick that takes one from it.
  induction left : s.work using Nat.strong_induction_on generalizing s with
  | _ w ih =>
    cases quiescent : s.isQuiescent with
    | true =>
      exact ⟨0, Nat.zero_le _, .zero quiescent, fun _ hm => absurd hm (Nat.not_lt_zero _)⟩
    | false =>
      cases turn : s.turn? with
      | none =>
        -- An idle tick of a settled scheduler cannot be followed by another tick.
        have done := isQuiescent_tick_of_idle settled h.room turn
        have loop := (Loop.zero done).cons quiescent
        refine ⟨1, Nat.le_add_left 1 w, loop, fun m hm _ => ?_⟩
        omega
      | some id =>
        have less := work_tick_of_turn h.placed h.bounded h.slice turn
        obtain ⟨n, hn, loop, idle⟩ := ih s.tick.value.work (by omega) h.tick (settled_tick s) rfl
        refine ⟨n + 1, by omega, loop.cons quiescent, fun m hm still => ?_⟩
        cases m with
        | zero =>
          change s.turn? = none at still
          rw [turn] at still
          cases still
        | succ m => exact congrArg (· + 1) (idle m (Nat.lt_of_succ_lt_succ hm) still)

/-- The loop ends after at most two ticks more than the work, and only its first and its last tick
can be idle. -/
theorem exists_loop (h : s.Drainable) :
    ∃ n ≤ s.work + 2, Loop s n ∧
      ∀ m < n, (ticks m s).value.turn? = none → m = 0 ∨ m + 1 = n := by
  cases quiescent : s.isQuiescent with
  | true =>
    exact ⟨0, Nat.zero_le _, .zero quiescent, fun _ hm => absurd hm (Nat.not_lt_zero _)⟩
  | false =>
    have less : s.tick.value.work ≤ s.work := by
      cases turn : s.turn? with
      | none => exact (work_tick_of_idle turn).le
      | some id =>
        have := work_tick_of_turn h.placed h.bounded h.slice turn
        omega
    obtain ⟨n, hn, loop, idle⟩ := exists_loop_of_settled h.tick (settled_tick s)
    refine ⟨n + 1, by omega, loop.cons quiescent, fun m hm still => ?_⟩
    cases m with
    | zero => exact .inl rfl
    | succ m => exact .inr (congrArg (· + 1) (idle m (Nat.lt_of_succ_lt_succ hm) still))

theorem work_add_two_le_tickLimit (slice : 1 ≤ s.config.slice) : s.work + 2 ≤ s.tickLimit := by
  unfold work tickLimit
  induction s.processes with
  | nil => exact Nat.le_refl 2
  | cons p ps ih =>
    have first := Process.slicesLeft_le_workLimit (p := p) slice
    rw [List.map_cons, List.sum_cons, List.foldr_cons]
    omega

/-- A tick that gives that process a slice and to which nobody else's instructions belong. -/
def Serves (s : Scheduler) (id : ProcessId) : Prop :=
  s.turn? = some id ∧ ∀ other, 0 < Event.executions other s.tick.events ↔ other = id

theorem serves_of_turn (placed : s.Placed) (slice : 1 ≤ s.config.slice) (h : s.turn? = some id) :
    s.Serves id := by
  obtain ⟨p, found⟩ := get?_of_turn placed h
  refine ⟨h, fun other => ?_⟩
  rw [executions_tick_of_turn h found, (moves_seated s).config_eq]
  by_cases own : other = id
  · rw [if_pos own]
    exact iff_of_true (Process.length_slice_pos slice) own
  · rw [if_neg own]
    exact iff_of_false (Nat.lt_irrefl 0) own

/-- What a loop of `n` ticks leaves and what took place in it. -/
structure Drained (s : Scheduler) (n : Nat) : Prop where
  /-- Each tick gives one process a slice; only the first and the last one may give none. -/
  turns : ∀ m < n, (∃ id, (ticks m s).value.Serves id) ∨ m = 0 ∨ m + 1 = n
  bound : n ≤ s.work + 2
  /-- If nobody in the queues is gone, every tick gives one process a slice. -/
  exact : (∀ id ∈ s.admission.ids ++ s.ready.ids, s.table.isLive id = true) →
    n = s.work ∧ ∀ m < n, ∃ id, (ticks m s).value.Serves id
  /-- Nothing runs and nothing waits. -/
  quiet : (ticks n s).value.running = none ∧ (ticks n s).value.admission.ids = [] ∧
    (ticks n s).value.ready.ids = []
  empty : (ticks n s).value.processCount = 0
  /-- Everybody who was alive has left one record. -/
  recorded : ((Event.records (ticks n s).events).map fun r => r.status.id).Perm
    (s.processes.map Process.id)
  /-- Nobody has been killed. -/
  natural : ∀ r ∈ Event.records (ticks n s).events, r.ending ≠ .killed

theorem drained_of_loop {n : Nat} (drainable : s.Drainable) (loop : Loop s n)
    (bound : n ≤ s.work + 2)
    (idle : ∀ m < n, (ticks m s).value.turn? = none → m = 0 ∨ m + 1 = n) : Drained s n := by
  have moves := moves_ticks n s
  have nobody := (moves.placed drainable.placed).processes_eq_nil loop.2
  obtain ⟨perm, natural⟩ := moves.accounted drainable.placed
  have serves : ∀ m id, (ticks m s).value.turn? = some id → (ticks m s).value.Serves id := by
    intro m id turn
    have before := moves_ticks m s
    refine serves_of_turn (before.placed drainable.placed) ?_ turn
    rw [before.config_eq]
    exact drainable.slice
  constructor
  case turns =>
    intro m hm
    cases turn : (ticks m s).value.turn? with
    | none => exact .inr (idle m hm turn)
    | some id => exact .inl ⟨id, serves m id turn⟩
  case bound => exact bound
  case exact =>
    intro alive
    obtain ⟨count, turns⟩ := loop.eq_work drainable (clean_of_queues drainable.placed alive)
    refine ⟨count, fun m hm => ?_⟩
    obtain ⟨id, turn⟩ := turns m hm
    exact ⟨id, serves m id turn⟩
  case quiet => exact isQuiescent_iff.mp loop.2
  case empty => rw [processCount, nobody, List.length_nil]
  case recorded =>
    rw [nobody, List.map_nil, List.append_nil] at perm
    exact perm.symm
  case natural => exact natural

/-- After any requests the loop ends if budgets can be exceeded, and all who were alive come to
their own end in it. -/
theorem drained_of_run {config : Config} {granted : List Submission} {events : List Event}
    (run : Run config granted events s) (slice : 1 ≤ config.slice) (room : 1 ≤ config.maxReady)
    (bounded : ∀ p ∈ s.processes, p.budget < Cycles.limit) :
    ∃ n, s.runAll = some (ticks n s) ∧ Loop s n ∧ Drained s n := by
  have history := run.history
  rw [← history.config_eq] at slice room
  have exceedable : s.Bounded := by
    intro id p found
    exact UInt32.ne_of_lt (bounded p (Table.mem_processes.mpr ⟨id, found⟩))
  have drainable : s.Drainable := ⟨history.placed, exceedable, slice, room⟩
  obtain ⟨n, bound, loop, idle⟩ := exists_loop drainable
  have enough : n ≤ s.tickLimit := bound.trans (work_add_two_le_tickLimit slice)
  exact ⟨n, loop.runWithin_eq enough [], loop, drained_of_loop drainable loop bound idle⟩

/-- Two ready processes are killed while the queue they fill keeps a third one out, and a fourth one
is killed behind that: the work is one slice, and the loop has an idle tick before it and after. -/
theorem drained_with_gone :
    ∃ granted events s, Run { slice := 1, maxReady := 1 } granted events s ∧
      s.ready.ids = [0] ∧ s.admission.ids = [2, 3] ∧ s.work = 1 ∧ s.turn? = none ∧
      (ticks 2 s).value.turn? = none ∧
      ∃ n, s.runAll = some (ticks n s) ∧ Loop s n ∧ Drained s n := by
  let load : String → Except Fault (List UInt8) := fun _ => .error .notFound
  let loop : Request := .submitImage ⟨1, .normal, 9, "loop", loopImage⟩
  let stop : Request := .submitImage ⟨1, .low, 0, "stop", []⟩
  have fresh : Run { slice := 1, maxReady := 1 } [] [] (init { slice := 1, maxReady := 1 }) :=
    .start
  have two := (fresh.serve load loop rfl).serve load loop rfl
  have ticked := (two.serve load .tick rfl).serve load .tick rfl
  have killed := (ticked.serve load (.kill 0) rfl).serve load (.kill 1) rfl
  have run := ((killed.serve load stop rfl).serve load stop rfl).serve load (.kill 3) rfl
  exact ⟨_, _, _, run, by decide, by decide, by decide, by decide, by decide,
    drained_of_run run (by decide) (by decide) (by decide)⟩

end Scheduler

end Timeshare
