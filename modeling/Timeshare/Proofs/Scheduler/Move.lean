import Mathlib
import Timeshare.Scheduler.RunAll
import Timeshare.Proofs.Queue
import Timeshare.Proofs.Table
import Timeshare.Proofs.Process.Lone

/-!
# Moves

All that a tick does is made of seven kinds of moves: an identifier is dropped from a queue,
a process is admitted, dispatched or put back, and the running process carries out one instruction,
which may be its last. `Move` says once what each of them needs and what it leaves. `moves_tick`
cuts a tick into moves, a time slice into single instructions, so that what every move preserves
holds at every point of every run.
-/

namespace Timeshare

/-- The events that tell where a process went, and nothing else of it. -/
inductive Event.IsPassage : Event → Prop
  | discarded (id : ProcessId) : IsPassage (.discarded id)
  | admitted (id : ProcessId) : IsPassage (.admitted id)
  | skipped (id : ProcessId) : IsPassage (.skipped id)
  | dispatched (id : ProcessId) : IsPassage (.dispatched id)
  | requeued (id : ProcessId) : IsPassage (.requeued id)

/-- Whoever goes from place to place leaves no record. -/
theorem Event.records_of_passages {es : List Event} (h : ∀ e ∈ es, e.IsPassage) :
    Event.records es = [] := by
  rw [records, List.filterMap_eq_nil_iff]
  intro e he
  cases h e he <;> rfl

namespace Scheduler

/-! ## Moves -/

/-- The processor is given to a process. -/
def seat (s : Scheduler) (id : ProcessId) : Scheduler :=
  { s with
    table := s.table.update id fun p => { p with state := .running }
    running := some id }

/-- A process has changed. -/
def advance (s : Scheduler) (id : ProcessId) (p : Process) : Scheduler :=
  { s with table := s.table.update id fun _ => p }

/-- A process is gone, from the table and from the processor. -/
def without (s : Scheduler) (p : Process) : Scheduler :=
  { s with
    running := if s.running = some p.id then none else s.running
    table := s.table.remove p.id }

theorem terminate_eq (s : Scheduler) (p : Process) (ending : Ending) :
    s.terminate p ending = ⟨s.without p, [.terminated ⟨p.status, ending⟩]⟩ := rfl

/-- One thing that takes place in a scheduler as time passes, with the events that say so. -/
inductive Move : Scheduler → List Event → Scheduler → Prop
  /-- A process that is gone leaves the head of the admission queue. -/
  | discard {s : Scheduler} {id : ProcessId} {rest : List ProcessId}
      (head : s.admission.ids = id :: rest) (gone : s.table.isLive id = false) :
      Move s [.discarded id] { s with admission := ⟨rest⟩ }
  /-- The head of the admission queue goes on to the ready queue. -/
  | promote {s : Scheduler} {id : ProcessId} {rest : List ProcessId}
      (head : s.admission.ids = id :: rest) (live : s.table.isLive id = true) :
      Move s [.admitted id] ({ s with admission := ⟨rest⟩ }.makeReady id)
  /-- A process that is gone leaves the head of the ready queue. -/
  | skip {s : Scheduler} {id : ProcessId} {rest : List ProcessId}
      (head : s.ready.ids = id :: rest) (gone : s.table.isLive id = false) :
      Move s [.skipped id] { s with ready := ⟨rest⟩ }
  /-- The head of the ready queue gets the free processor. -/
  | dispatch {s : Scheduler} {id : ProcessId} {rest : List ProcessId} (free : s.running = none)
      (head : s.ready.ids = id :: rest) (live : s.table.isLive id = true) :
      Move s [.dispatched id] ({ s with ready := ⟨rest⟩ }.seat id)
  /-- The running process carries out an instruction that is not its last. -/
  | execute {s : Scheduler} {id : ProcessId} {p : Process} (running : s.running = some id)
      (found : s.table.get? id = some p) (goes : p.verdict = none) :
      Move s [.executed id p.upcoming] (s.advance id p.step)
  /-- The running process carries out its last instruction. -/
  | finish {s : Scheduler} {id : ProcessId} {p : Process} {ending : Ending}
      (running : s.running = some id) (found : s.table.get? id = some p)
      (ends : p.verdict = some ending) :
      Move s [.executed id p.upcoming, .terminated ⟨p.step.status, ending⟩]
        ((s.advance id p.step).without p.step)
  /-- The running process goes back to the ready queue. -/
  | requeue {s : Scheduler} {id : ProcessId} (running : s.running = some id) :
      Move s [.requeued id] ({ s with running := none }.makeReady id)

/-- Moves one after another; their events add up. -/
inductive Moves : Scheduler → List Event → Scheduler → Prop
  | nil (s : Scheduler) : Moves s [] s
  | cons {s t u : Scheduler} {es fs : List Event} (first : Move s es t) (rest : Moves t fs u) :
      Moves s (es ++ fs) u

theorem Move.moves {s t : Scheduler} {es : List Event} (h : Move s es t) : Moves s es t := by
  simpa using Moves.cons h (.nil t)

theorem Moves.trans {s t u : Scheduler} {es fs : List Event} (h : Moves s es t)
    (h' : Moves t fs u) : Moves s (es ++ fs) u := by
  induction h with
  | nil => exact h'
  | cons first _ ih =>
    rw [List.append_assoc]
    exact .cons first (ih h')

/-! ## Queues -/

section

variable {s : Scheduler} {id : ProcessId} {gone rest : List ProcessId}

theorem admitNext_of_full (h : s.config.maxReady ≤ s.ready.length) : s.admitNext = ⟨s, []⟩ := by
  rw [admitNext, if_pos (Queue.holdsAtLeast_iff.mpr h)]
  rfl

theorem admitNext_of_gone (room : s.ready.length < s.config.maxReady)
    (h : ∀ id ∈ s.admission.ids, s.table.isLive id = false) :
    s.admitNext = ⟨{ s with admission := Queue.empty }, s.admission.ids.map .discarded⟩ := by
  have notFull : ¬ s.ready.holdsAtLeast s.config.maxReady = true := by
    rw [Queue.holdsAtLeast_iff]
    exact Nat.not_le_of_lt room
  rw [admitNext, if_neg notFull, Queue.takeFirst_of_gone h]
  simp [Bind.bind, Traced.andThen, Traced.emitAll, pure, Traced.still]

theorem admitNext_of_split (room : s.ready.length < s.config.maxReady)
    (split : s.admission.ids = gone ++ id :: rest)
    (h : ∀ other ∈ gone, s.table.isLive other = false) (live : s.table.isLive id = true) :
    s.admitNext = ⟨{ s with admission := ⟨rest⟩ }.makeReady id,
      gone.map .discarded ++ [.admitted id]⟩ := by
  have notFull : ¬ s.ready.holdsAtLeast s.config.maxReady = true := by
    rw [Queue.holdsAtLeast_iff]
    exact Nat.not_le_of_lt room
  rw [admitNext, if_neg notFull, Queue.takeFirst_of_split split h live]
  simp [Bind.bind, Traced.andThen, Traced.emitAll, Traced.emit, pure, Traced.still]

theorem dispatch_of_gone (h : ∀ id ∈ s.ready.ids, s.table.isLive id = false) :
    s.dispatch = ⟨{ s with ready := Queue.empty }, s.ready.ids.map .skipped⟩ := by
  rw [Scheduler.dispatch, Queue.takeFirst_of_gone h]
  simp [Bind.bind, Traced.andThen, Traced.emitAll, pure, Traced.still]

theorem dispatch_of_split (split : s.ready.ids = gone ++ id :: rest)
    (h : ∀ other ∈ gone, s.table.isLive other = false) (live : s.table.isLive id = true) :
    s.dispatch = ⟨{ s with ready := ⟨rest⟩ }.seat id, gone.map .skipped ++ [.dispatched id]⟩ := by
  rw [Scheduler.dispatch, Queue.takeFirst_of_split split h live]
  simp [Bind.bind, Traced.andThen, Traced.emitAll, Traced.emit, pure, Traced.still, seat]

/-- The processes that are gone leave the head of the admission queue one by one. -/
theorem moves_discarded (split : s.admission.ids = gone ++ rest)
    (h : ∀ other ∈ gone, s.table.isLive other = false) :
    Moves s (gone.map .discarded) { s with admission := ⟨rest⟩ } := by
  induction gone generalizing s with
  | nil =>
    obtain ⟨config, table, ⟨ids⟩, ready, running⟩ := s
    obtain rfl : ids = rest := split
    exact .nil _
  | cons other gone ih =>
    obtain ⟨first, others⟩ := List.forall_mem_cons.mp h
    have later := ih (s := { s with admission := ⟨gone ++ rest⟩ }) rfl others
    exact .cons (.discard split first) later

/-- The processes that are gone leave the head of the ready queue one by one. -/
theorem moves_skipped (split : s.ready.ids = gone ++ rest)
    (h : ∀ other ∈ gone, s.table.isLive other = false) :
    Moves s (gone.map .skipped) { s with ready := ⟨rest⟩ } := by
  induction gone generalizing s with
  | nil =>
    obtain ⟨config, table, admission, ⟨ids⟩, running⟩ := s
    obtain rfl : ids = rest := split
    exact .nil _
  | cons other gone ih =>
    obtain ⟨first, others⟩ := List.forall_mem_cons.mp h
    have later := ih (s := { s with ready := ⟨gone ++ rest⟩ }) rfl others
    exact .cons (.skip split first) later

theorem moves_admitNext (s : Scheduler) : Moves s s.admitNext.events s.admitNext.value := by
  by_cases full : s.config.maxReady ≤ s.ready.length
  · rw [admitNext_of_full full]
    exact .nil s
  · have room := Nat.lt_of_not_le full
    rcases s.admission.gone_or_split s.table.isLive with h | ⟨gone, id, rest, split, h, live⟩
    · rw [admitNext_of_gone room h]
      exact moves_discarded (List.append_nil _).symm h
    · rw [admitNext_of_split room split h live]
      have last := Move.promote (s := { s with admission := ⟨id :: rest⟩ }) rfl live
      exact (moves_discarded split h).trans last.moves

theorem moves_dispatch (s : Scheduler) (free : s.running = none) :
    Moves s s.dispatch.events s.dispatch.value := by
  rcases s.ready.gone_or_split s.table.isLive with h | ⟨gone, id, rest, split, h, live⟩
  · rw [dispatch_of_gone h]
    exact moves_skipped (List.append_nil _).symm h
  · rw [dispatch_of_split split h live]
    have last := Move.dispatch (s := { s with ready := ⟨id :: rest⟩ }) free rfl live
    exact (moves_skipped split h).trans last.moves

end

theorem moves_requeue (s : Scheduler) : Moves s s.requeue.events s.requeue.value := by
  unfold Scheduler.requeue
  cases h : s.running with
  | none => exact .nil s
  | some id => exact (Move.requeue h).moves

/-! ## Passages -/

theorem passages_admitNext (s : Scheduler) : ∀ e ∈ s.admitNext.events, e.IsPassage := by
  by_cases full : s.config.maxReady ≤ s.ready.length
  · rw [admitNext_of_full full]
    nofun
  · have room := Nat.lt_of_not_le full
    rcases s.admission.gone_or_split s.table.isLive with h | ⟨gone, id, rest, split, h, live⟩
    · rw [admitNext_of_gone room h, List.forall_mem_map]
      exact fun other _ => .discarded other
    · rw [admitNext_of_split room split h live, List.forall_mem_append, List.forall_mem_map]
      exact ⟨fun other _ => .discarded other, List.forall_mem_singleton.mpr (.admitted id)⟩

theorem passages_dispatch (s : Scheduler) : ∀ e ∈ s.dispatch.events, e.IsPassage := by
  rcases s.ready.gone_or_split s.table.isLive with h | ⟨gone, id, rest, split, h, live⟩
  · rw [dispatch_of_gone h, List.forall_mem_map]
    exact fun other _ => .skipped other
  · rw [dispatch_of_split split h live, List.forall_mem_append, List.forall_mem_map]
    exact ⟨fun other _ => .skipped other, List.forall_mem_singleton.mpr (.dispatched id)⟩

theorem passages_requeue (s : Scheduler) : ∀ e ∈ s.requeue.events, e.IsPassage := by
  unfold Scheduler.requeue
  cases s.running with
  | none => nofun
  | some id => exact List.forall_mem_singleton.mpr (.requeued id)

/-! ## Time slices -/

theorem advance_self {s : Scheduler} {id : ProcessId} {p : Process}
    (h : s.table.get? id = some p) : s.advance id p = s := by
  rw [advance, Table.update_self h]

theorem advance_advance (s : Scheduler) (id : ProcessId) (p q : Process) :
    (s.advance id p).advance id q = s.advance id q := by
  simp only [advance, Table.update_update]
  rfl

theorem get?_advance {s : Scheduler} {id : ProcessId} {p : Process} (q : Process)
    (h : s.table.get? id = some p) (other : ProcessId) :
    (s.advance id q).table.get? other = if other = id then some q else s.table.get? other := by
  rw [advance, Table.get?_update, h]
  rfl

theorem get?_advance_self {s : Scheduler} {id : ProcessId} {p : Process} (q : Process)
    (h : s.table.get? id = some p) : (s.advance id q).table.get? id = some q := by
  rw [get?_advance q h, if_pos rfl]

theorem table_without_advance (s : Scheduler) (id : ProcessId) (q : Process) (hid : q.id = id) :
    ((s.advance id q).without q).table = s.table.remove id := by
  rw [without, advance, hid, Table.remove_update]

/-- What a slice leaves in the scheduler. -/
def afterSlice (s : Scheduler) (id : ProcessId) (slice : Slice) : Traced Scheduler := do
  Traced.emitAll (slice.executed.map (.executed id))
  match slice.ending with
  | none => return s.advance id slice.process
  | some ending => (s.advance id slice.process).terminate slice.process ending

theorem runSlice_eq {s : Scheduler} {id : ProcessId} {p : Process}
    (h : s.table.get? id = some p) :
    s.runSlice id = s.afterSlice id (p.slice s.config.slice) := by
  simp only [runSlice, h]
  rfl

theorem runSlice_of_survives {s : Scheduler} {id : ProcessId} {p : Process}
    (found : s.table.get? id = some p) (survives : p.Survives s.config.slice) :
    (s.runSlice id).value = s.advance id (Process.step^[s.config.slice] p) := by
  have ending := Process.slice_ending_eq_none_iff.mpr survives
  rw [runSlice_eq found, afterSlice, Traced.value_bind, ending,
    ← Process.slice_process_of_survives survives]
  rfl

theorem runSlice_of_ends {s : Scheduler} {id : ProcessId} {p : Process} {ending : Ending}
    (found : s.table.get? id = some p) (ends : (p.slice s.config.slice).ending = some ending) :
    (s.runSlice id).value = (s.advance id (p.slice s.config.slice).process).without
      (p.slice s.config.slice).process := by
  rw [runSlice_eq found, afterSlice, Traced.value_bind, ends]
  rfl

/-- A slice is its first instruction, and then the end of the process or the rest of the slice. -/
theorem afterSlice_succ (s : Scheduler) (id : ProcessId) (p : Process) (limit : Nat) :
    s.afterSlice id (p.slice (limit + 1)) =
      (⟨s.advance id p.step, [.executed id p.upcoming]⟩ : Traced Scheduler) >>= fun s =>
        match p.verdict with
        | some ending => s.terminate p.step ending
        | none => s.afterSlice id (p.step.slice limit) := by
  rw [Process.slice_succ]
  cases p.verdict with
  | some ending => rfl
  | none =>
    have same : (s.advance id p.step).afterSlice id (p.step.slice limit) =
        s.afterSlice id (p.step.slice limit) := by
      simp only [afterSlice, advance_advance]
    change _ = (⟨s.advance id p.step, [.executed id p.upcoming]⟩ : Traced Scheduler).andThen
      fun s => s.afterSlice id (p.step.slice limit)
    rw [Traced.andThen, same]
    cases (p.step.slice limit).ending <;> rfl

/-- A slice is carried out one instruction after another. -/
theorem moves_afterSlice {id : ProcessId} (limit : Nat) {s : Scheduler} {p : Process}
    (running : s.running = some id) (found : s.table.get? id = some p) :
    Moves s (s.afterSlice id (p.slice limit)).events (s.afterSlice id (p.slice limit)).value := by
  induction limit generalizing s p with
  | zero =>
    rw [Process.slice_zero]
    simpa [afterSlice, advance_self found] using Moves.nil s
  | succ limit ih =>
    rw [afterSlice_succ]
    cases hv : p.verdict with
    | none =>
      have stepped := get?_advance_self p.step found
      exact .cons (.execute running found hv) (ih (s := s.advance id p.step) running stepped)
    | some ending =>
      simpa [terminate_eq] using (Move.finish running found hv).moves

theorem moves_runSlice {s : Scheduler} {id : ProcessId} (running : s.running = some id) :
    Moves s (s.runSlice id).events (s.runSlice id).value := by
  cases h : s.table.get? id with
  | none =>
    simp only [runSlice, h]
    exact .nil s
  | some p =>
    rw [runSlice_eq h]
    exact moves_afterSlice s.config.slice running h

/-! ## Ticks -/

/-- The first half of a tick: the processor is given away if it is free. -/
def seated (s : Scheduler) : Traced Scheduler := do
  let s ← s.admitNext
  if s.running.isNone then s.dispatch else pure s

theorem passages_seated (s : Scheduler) : ∀ e ∈ s.seated.events, e.IsPassage := by
  rw [seated, Traced.events_bind, List.forall_mem_append]
  refine ⟨passages_admitNext s, ?_⟩
  split
  · exact passages_dispatch _
  · nofun

/-- The second half of a tick: a process has its slice and the processor is given away again. -/
def serve (s : Scheduler) (id : ProcessId) : Traced Scheduler := do
  let s ← s.runSlice id
  let s ← s.requeue
  s.dispatch

/-- The process that the next tick gives a slice. -/
def turn? (s : Scheduler) : Option ProcessId := s.seated.value.running

theorem tick_eq (s : Scheduler) :
    s.tick = s.seated >>= fun s =>
      match s.running with
      | none => pure s
      | some id => s.serve id := by
  simp only [seated, Traced.bind_assoc, tick]
  congr 1
  funext admitted
  split
  · rfl
  · rw [Traced.pure_bind]
    rfl

theorem tick_eq_of_idle {s : Scheduler} (h : s.turn? = none) :
    s.tick = ⟨s.seated.value, s.seated.events⟩ := by
  unfold turn? at h
  rw [tick_eq]
  simp [Bind.bind, Traced.andThen, h]

theorem tick_eq_of_turn {s : Scheduler} {id : ProcessId} (h : s.turn? = some id) :
    s.tick = ⟨(s.seated.value.serve id).value,
      s.seated.events ++ (s.seated.value.serve id).events⟩ := by
  unfold turn? at h
  rw [tick_eq]
  simp [Bind.bind, Traced.andThen, h]

theorem running_requeue (s : Scheduler) : s.requeue.value.running = none := by
  unfold Scheduler.requeue
  cases h : s.running with
  | none => exact h
  | some id => rfl

theorem moves_seated (s : Scheduler) : Moves s s.seated.events s.seated.value := by
  have admitted := moves_admitNext s
  simp only [seated, Traced.events_bind, Traced.value_bind]
  cases h : s.admitNext.value.running with
  | none => exact admitted.trans (moves_dispatch _ h)
  | some id => simpa using admitted

theorem moves_serve {s : Scheduler} {id : ProcessId} (running : s.running = some id) :
    Moves s (s.serve id).events (s.serve id).value :=
  (moves_runSlice running).trans ((moves_requeue _).trans (moves_dispatch _ (running_requeue _)))

/-- A tick is a sequence of moves. -/
theorem moves_tick (s : Scheduler) : Moves s s.tick.events s.tick.value := by
  cases h : s.turn? with
  | none =>
    rw [tick_eq_of_idle h]
    exact moves_seated s
  | some id =>
    rw [tick_eq_of_turn h]
    exact (moves_seated s).trans (moves_serve h)

theorem moves_ticks (n : Nat) (s : Scheduler) :
    Moves s (ticks n s).events (ticks n s).value := by
  induction n generalizing s with
  | zero => exact .nil s
  | succ n ih => exact (moves_tick s).trans (ih s.tick.value)

/-- Running until nothing is left is a number of ticks. -/
theorem runWithin_eq_ticks {limit : Nat} {s : Scheduler} {past : List Event}
    {t : Traced Scheduler} (h : runWithin limit s past = some t) :
    ∃ n, t = ⟨(ticks n s).value, past.reverse ++ (ticks n s).events⟩ := by
  induction limit generalizing s past with
  | zero =>
    simp only [runWithin, Option.ite_none_right_eq_some, Option.some.injEq] at h
    exact ⟨0, by simpa [ticks] using h.2.symm⟩
  | succ limit ih =>
    rw [runWithin] at h
    split at h
    · exact ⟨0, by simpa [ticks] using h.symm⟩
    · obtain ⟨n, rfl⟩ := ih h
      exact ⟨n + 1, by simp [ticks]⟩

end Scheduler

end Timeshare
