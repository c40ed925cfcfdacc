import Mathlib
import Timeshare.Proofs.Process.Remaining
import Timeshare.Proofs.Scheduler.Turn

/-!
# Work

The work that is left is the number of slices that the processes still need. Admission, dispatch
and requeueing leave it as it is, and a slice takes one from it, so a tick that gives a process a
slice takes exactly one (`work_tick_of_turn`) and any other tick none (`work_tick_of_idle`).
`Moves.accounted` says where the processes go meanwhile: each one that is no longer in the table has
left one record, and none of these tells of a kill.
-/

namespace Timeshare

namespace Table

variable {t : Table} {id : ProcessId} {p : Process}

/-- What does not depend on places is the same for all processes after a change of state. -/
theorem map_processes_update_state {α : Type} (f : Process → α) (hf : ∀ p, f p.bare = f p)
    (t : Table) (id : ProcessId) (state : ProcessState) :
    ((t.update id fun p => { p with state := state }).processes.map f).Perm
      (t.processes.map f) := by
  cases found : t.get? id with
  | none => rw [update_of_get?_eq_none found]
  | some p =>
    have before := (processes_remove found).map f
    have after := (processes_update found fun p => { p with state := state }).map f
    have same : f { p with state := state } = f p := (hf _).symm.trans (hf p)
    rw [List.map_cons, same, ← List.map_cons] at after
    exact after.trans before.symm

end Table

namespace Scheduler

variable {s t : Scheduler} {id : ProcessId} {p : Process}

/-- The slices that the processes need until all have ended by themselves. -/
def work (s : Scheduler) : Nat := (s.processes.map (Process.slicesLeft s.config.slice)).sum

/-- All processes have a budget that the counter of instructions can exceed. -/
def Bounded (s : Scheduler) : Prop :=
  ∀ id p, s.table.get? id = some p → p.budget ≠ Cycles.limit

/-! ## What leaves the work as it is -/

theorem work_update_state (s : Scheduler) (id : ProcessId) (state : ProcessState) :
    { s with table := s.table.update id fun p => { p with state := state } }.work = s.work :=
  (Table.map_processes_update_state _ (Process.slicesLeft_bare _) s.table id state).sum_eq

theorem work_makeReady (s : Scheduler) (id : ProcessId) : (s.makeReady id).work = s.work :=
  work_update_state s id .ready

theorem work_admitNext (s : Scheduler) : s.admitNext.value.work = s.work := by
  unfold admitNext
  split
  · rfl
  · simp only [Traced.value_bind]
    split
    · rfl
    · exact work_makeReady _ _

theorem work_dispatch (s : Scheduler) : s.dispatch.value.work = s.work := by
  simp only [Scheduler.dispatch, Traced.value_bind]
  split
  · rfl
  · exact work_update_state s _ .running

theorem work_requeue (s : Scheduler) : s.requeue.value.work = s.work := by
  unfold Scheduler.requeue
  split
  · rfl
  · exact work_makeReady { s with running := none } _

theorem work_seated (s : Scheduler) : s.seated.value.work = s.work := by
  rw [seated, Traced.value_bind]
  split
  · rw [work_dispatch, work_admitNext]
  · exact work_admitNext s

/-! ## What a tick takes from it -/

/-- A slice takes one from the work. -/
theorem work_runSlice (placed : s.Placed) (bounded : s.Bounded) (slice : 1 ≤ s.config.slice)
    (found : s.table.get? id = some p) : (s.runSlice id).value.work + 1 = s.work := by
  have budget := bounded id p found
  obtain ⟨rfl, -⟩ := placed.filed id p found
  have before : s.work = Process.slicesLeft s.config.slice p +
      ((s.table.remove p.id).processes.map (Process.slicesLeft s.config.slice)).sum :=
    ((Table.processes_remove found).map _).sum_eq
  rw [before]
  cases ending : (p.slice s.config.slice).ending with
  | none =>
    have survives := Process.slice_ending_eq_none_iff.mp ending
    have after : (s.advance p.id (Process.step^[s.config.slice] p)).work =
        Process.slicesLeft s.config.slice (Process.step^[s.config.slice] p) +
          ((s.table.remove p.id).processes.map (Process.slicesLeft s.config.slice)).sum :=
      ((Table.processes_update found _).map _).sum_eq
    have less := Process.slicesLeft_of_survives budget slice survives
    rw [runSlice_of_survives found survives, after]
    omega
  | some last =>
    have dies : ¬ p.Survives s.config.slice := by
      rw [← Process.slice_ending_eq_none_iff, ending]
      exact Option.some_ne_none last
    have after := table_without_advance s p.id _ (Process.slice_process_id s.config.slice p)
    rw [runSlice_of_ends found ending, work, processes, after, Nat.add_comm,
      Process.slicesLeft_of_not_survives budget slice dies]
    rfl

/-! ## Where processes go -/

/-- A move takes those who end out of the table, and each of them leaves a record. -/
theorem Move.accounted {es : List Event} (move : Move s es t) (placed : s.Placed) :
    (s.processes.map Process.id).Perm
        ((Event.records es).map (fun r => r.status.id) ++ t.processes.map Process.id) ∧
      ∀ r ∈ Event.records es, r.ending ≠ .killed := by
  have quiet : ∀ state id, ({ s with table := s.table.update id fun p =>
      { p with state := state } }.processes.map Process.id).Perm (s.processes.map Process.id) :=
    fun state id => Table.map_processes_update_state Process.id (fun _ => rfl) s.table id state
  cases move with
  | discard => exact ⟨.refl _, fun _ hr => absurd hr List.not_mem_nil⟩
  | skip => exact ⟨.refl _, fun _ hr => absurd hr List.not_mem_nil⟩
  | promote => exact ⟨(quiet _ _).symm, fun _ hr => absurd hr List.not_mem_nil⟩
  | dispatch => exact ⟨(quiet _ _).symm, fun _ hr => absurd hr List.not_mem_nil⟩
  | requeue => exact ⟨(quiet _ _).symm, fun _ hr => absurd hr List.not_mem_nil⟩
  | @execute id p running found goes =>
    have before := (Table.processes_remove found).map Process.id
    have after := (Table.processes_update found fun _ => p.step).map Process.id
    exact ⟨before.trans after.symm, fun _ hr => absurd hr List.not_mem_nil⟩
  | @finish id p ending running found ends =>
    obtain ⟨rfl, -⟩ := placed.filed id p found
    have before := (Table.processes_remove found).map Process.id
    have after : ((s.advance p.id p.step).without p.step).table = s.table.remove p.id :=
      table_without_advance s p.id p.step rfl
    constructor
    · rw [processes, processes, after]
      exact before
    · intro r hr
      rw [List.mem_singleton.mp hr]
      rintro rfl
      exact Process.verdict_ne_killed ends

theorem Moves.accounted {es : List Event} (moves : Moves s es t) (placed : s.Placed) :
    (s.processes.map Process.id).Perm
        ((Event.records es).map (fun r => r.status.id) ++ t.processes.map Process.id) ∧
      ∀ r ∈ Event.records es, r.ending ≠ .killed := by
  induction moves with
  | nil => exact ⟨.refl _, fun _ hr => absurd hr List.not_mem_nil⟩
  | cons first _ ih =>
    obtain ⟨perm, alive⟩ := first.accounted placed
    obtain ⟨later_perm, later_alive⟩ := ih (first.placed placed)
    rw [Event.records_append]
    constructor
    · rw [List.map_append, List.append_assoc]
      exact perm.trans (later_perm.append_left _)
    · intro r hr
      exact (List.mem_append.mp hr).elim (alive r) (later_alive r)

/-! ## What stays -/

theorem Move.config_eq {es : List Event} (move : Move s es t) : t.config = s.config := by
  cases move <;> rfl

theorem Moves.config_eq {es : List Event} (moves : Moves s es t) : t.config = s.config := by
  induction moves with
  | nil => rfl
  | cons first _ ih => exact ih.trans first.config_eq

theorem Bounded.relocate (bounded : s.Bounded) {state : ProcessState}
    (table : t.table = s.table.update id fun p => { p with state := state }) : t.Bounded := by
  intro other q hq
  rw [table, Table.get?_update] at hq
  split at hq
  · obtain ⟨p, hp, rfl⟩ := Option.map_eq_some_iff.mp hq
    exact bounded id p hp
  · exact bounded other q hq

theorem Bounded.without (bounded : s.Bounded) (p : Process) : (s.without p).Bounded := by
  intro other q hq
  rw [Scheduler.without, Table.get?_remove] at hq
  split at hq
  · cases hq
  · exact bounded other q hq

theorem Bounded.advance (bounded : s.Bounded) (found : s.table.get? id = some p) :
    (s.advance id p.step).Bounded := by
  intro other q hq
  rw [get?_advance p.step found] at hq
  split at hq
  · cases Option.some.inj hq
    exact bounded id p found
  · exact bounded other q hq

/-- A move changes nobody's budget. -/
theorem Move.bounded {es : List Event} (move : Move s es t) (bounded : s.Bounded) : t.Bounded := by
  cases move with
  | discard => exact bounded
  | skip => exact bounded
  | promote => exact bounded.relocate rfl
  | dispatch => exact bounded.relocate rfl
  | requeue => exact bounded.relocate rfl
  | execute _ found => exact bounded.advance found
  | finish _ found => exact (bounded.advance found).without _

theorem Moves.bounded {es : List Event} (moves : Moves s es t) (bounded : s.Bounded) :
    t.Bounded := by
  induction moves with
  | nil => exact bounded
  | cons first _ ih => exact ih (first.bounded bounded)

/-! ## Ticks -/

/-- A tick that gives nobody a slice leaves the work as it is. -/
theorem work_tick_of_idle (h : s.turn? = none) : s.tick.value.work = s.work := by
  rw [tick_eq_of_idle h]
  exact work_seated s

/-- Whose turn it is holds the processor and is in the table. -/
theorem get?_of_turn (placed : s.Placed) (h : s.turn? = some id) :
    ∃ p, s.seated.value.table.get? id = some p := by
  have held : id ∈ s.seated.value.place .running := by
    rw [turn?] at h
    simp [place, h]
  exact ((moves_seated s).placed placed).occupied id held

/-- A tick that gives a process a slice takes one from the work. -/
theorem work_tick_of_turn (placed : s.Placed) (bounded : s.Bounded) (slice : 1 ≤ s.config.slice)
    (h : s.turn? = some id) : s.tick.value.work + 1 = s.work := by
  obtain ⟨p, found⟩ := get?_of_turn placed h
  have moves := moves_seated s
  rw [← moves.config_eq] at slice
  have less := work_runSlice (moves.placed placed) (moves.bounded bounded) slice found
  rw [tick_eq_of_turn h, serve, Traced.value_bind, Traced.value_bind, work_dispatch, work_requeue,
    less, work_seated]

end Scheduler

end Timeshare
