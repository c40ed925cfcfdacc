import Mathlib
import Timeshare.Proofs.Scheduler.Isolation

/-!
# Turns

Which ticks give nobody a slice and what such a tick leaves (`turn?_eq_none_iff`, `tick_of_idle`),
that a free processor after a tick means an empty ready queue (`settled_tick`), and whose
instructions the events of a tick tell of (`executions_tick_of_idle`, `executions_tick_of_turn`).
-/

namespace Timeshare

namespace Table

/-- Changing the state of a process kills nobody. -/
theorem isLive_update_state (t : Table) (id other : ProcessId) (state : ProcessState) :
    (t.update id fun p => { p with state := state }).isLive other = t.isLive other := by
  rw [isLive, isLive, get?_update]
  split
  case isTrue h =>
    subst h
    cases t.get? other <;> rfl
  case isFalse => rfl

end Table

namespace Scheduler

variable {s : Scheduler} {id : ProcessId}

/-! ## Idle ticks -/

theorem running_admitNext (s : Scheduler) : s.admitNext.value.running = s.running := by
  unfold admitNext
  split
  · rfl
  · simp only [Traced.value_bind]
    split <;> rfl

/-- The free processor stays free only if nobody who is ready is alive. -/
theorem running_dispatch_eq_none_iff (free : s.running = none) :
    s.dispatch.value.running = none ↔ ∀ id ∈ s.ready.ids, s.table.isLive id = false := by
  rcases s.ready.gone_or_split s.table.isLive with h | ⟨gone, id, rest, split, h, live⟩
  · rw [dispatch_of_gone h]
    exact iff_of_true free h
  · rw [dispatch_of_split split h live]
    refine iff_of_false (by simp [seat]) fun all => ?_
    rw [all id (by rw [split]; simp)] at live
    cases live

/-- Nobody holds the processor only when nobody is ready. -/
def Settled (s : Scheduler) : Prop := s.running = none → s.ready.ids = []

theorem settled_dispatch (free : s.running = none) : s.dispatch.value.Settled := by
  intro still
  rw [dispatch_of_gone ((running_dispatch_eq_none_iff free).mp still)]
  rfl

theorem seated_of_running (h : s.running = some id) : s.seated = s.admitNext := by
  have busy : s.admitNext.value.running = some id := (running_admitNext s).trans h
  simp [seated, Bind.bind, Traced.andThen, busy, pure, Traced.still]

theorem seated_of_free (h : s.running = none) :
    s.seated = s.admitNext >>= fun s => s.dispatch := by
  have free : s.admitNext.value.running = none := (running_admitNext s).trans h
  simp [seated, Bind.bind, Traced.andThen, free]

/-- A tick gives nobody a slice when nobody runs, nobody who is ready is alive, and nobody who is
alive can be admitted. -/
theorem turn?_eq_none_iff : s.turn? = none ↔
    s.running = none ∧ (∀ id ∈ s.ready.ids, s.table.isLive id = false) ∧
      (s.config.maxReady ≤ s.ready.length ∨ ∀ id ∈ s.admission.ids, s.table.isLive id = false) := by
  cases h : s.running with
  | some id =>
    have busy : s.turn? = some id := by
      rw [turn?, seated_of_running h, running_admitNext, h]
    simp [busy]
  | none =>
    have free : s.admitNext.value.running = none := (running_admitNext s).trans h
    rw [turn?, seated_of_free h, Traced.value_bind, running_dispatch_eq_none_iff free]
    by_cases full : s.config.maxReady ≤ s.ready.length
    · rw [admitNext_of_full full]
      simp [full]
    · have room := Nat.lt_of_not_le full
      rcases s.admission.gone_or_split s.table.isLive with
        dead | ⟨gone, id, rest, split, dead, live⟩
      · rw [admitNext_of_gone room dead]
        simp only [full, false_or, true_and]
        exact (and_iff_left dead).symm
      · rw [admitNext_of_split room split dead live]
        have alive : ¬ ∀ id ∈ s.admission.ids, s.table.isLive id = false := by
          intro all
          rw [all id (by rw [split]; simp)] at live
          cases live
        simp only [full, alive, or_self, and_false, iff_false]
        -- The one just admitted stands last in the ready queue and is alive.
        intro all
        have last := all id (by simp [makeReady])
        rw [makeReady, Table.isLive_update_state] at last
        exact Bool.noConfusion (live.symm.trans last)

/-- A tick that gives nobody a slice drops those who are gone, unless the ready queue is full; then
those in the admission queue stay. -/
theorem tick_of_idle (h : s.turn? = none) :
    s.tick.value = { s with
      ready := Queue.empty
      admission := if s.config.maxReady ≤ s.ready.length then s.admission else Queue.empty } := by
  obtain ⟨free, dead, unable⟩ := turn?_eq_none_iff.mp h
  rw [tick_eq_of_idle h, seated_of_free free, Traced.value_bind]
  by_cases full : s.config.maxReady ≤ s.ready.length
  · rw [admitNext_of_full full, dispatch_of_gone dead, if_pos full]
  · rw [admitNext_of_gone (Nat.lt_of_not_le full) (unable.resolve_left full), if_neg full]
    exact congrArg Traced.value
      (dispatch_of_gone (s := { s with admission := Queue.empty }) dead)

/-- Whatever a tick does, it leaves the processor free only if nobody is ready. -/
theorem settled_tick (s : Scheduler) : s.tick.value.Settled := by
  cases h : s.turn? with
  | none =>
    rw [tick_of_idle h]
    exact fun _ => rfl
  | some id =>
    rw [tick_eq_of_turn h]
    exact settled_dispatch (running_requeue _)

/-! ## Whose instructions -/

theorem executions_map_executed (id other : ProcessId) (es : List Execution) :
    Event.executions other (es.map (.executed id)) = if other = id then es.length else 0 := by
  by_cases h : other = id
  · subst h
    rw [if_pos rfl]
    induction es with
    | nil => rfl
    | cons e es ih => rw [List.map_cons, Event.executions_executed, ih, List.length_cons]
  · rw [if_neg h]
    induction es with
    | nil => rfl
    | cons e es ih => rw [List.map_cons, Event.executions_executed_of_ne h, ih]

/-- Nobody carries out an instruction on the way from place to place. -/
theorem executions_of_passages {es : List Event} (h : ∀ e ∈ es, e.IsPassage) (id : ProcessId) :
    Event.executions id es = 0 := by
  rw [Event.executions, List.countP_eq_zero]
  intro e he
  cases h e he <;> simp [Event.isExecutionOf]

theorem executions_dispatch (s : Scheduler) (id : ProcessId) :
    Event.executions id s.dispatch.events = 0 := executions_of_passages (passages_dispatch s) id

theorem executions_requeue (s : Scheduler) (id : ProcessId) :
    Event.executions id s.requeue.events = 0 := executions_of_passages (passages_requeue s) id

theorem executions_seated (s : Scheduler) (id : ProcessId) :
    Event.executions id s.seated.events = 0 := executions_of_passages (passages_seated s) id

theorem executions_afterSlice (s : Scheduler) (id other : ProcessId) (slice : Slice) :
    Event.executions other (s.afterSlice id slice).events =
      if other = id then slice.executed.length else 0 := by
  rw [afterSlice, Traced.events_bind, Event.executions_append, Traced.events_emitAll,
    executions_map_executed]
  cases slice.ending <;> rfl

theorem executions_tick_of_idle (h : s.turn? = none) (id : ProcessId) :
    Event.executions id s.tick.events = 0 := by
  rw [tick_eq_of_idle h]
  exact executions_seated s id

/-- The process whose turn it is has one slice, and nobody else runs. -/
theorem executions_tick_of_turn {p : Process} (h : s.turn? = some id)
    (found : s.seated.value.table.get? id = some p) (other : ProcessId) :
    Event.executions other s.tick.events =
      if other = id then (p.slice s.seated.value.config.slice).executed.length else 0 := by
  rw [tick_eq_of_turn h, Event.executions_append, executions_seated]
  rw [serve, Traced.events_bind, Traced.events_bind, Event.executions_append,
    Event.executions_append, executions_requeue, executions_dispatch, runSlice_eq found,
    executions_afterSlice, Nat.zero_add]
  rfl

end Scheduler

end Timeshare
