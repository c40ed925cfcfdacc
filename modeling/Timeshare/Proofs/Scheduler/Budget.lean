import Mathlib
import Timeshare.Proofs.Scheduler.Turn

/-!
# Budgets

A process that is alive has run no more instructions than its budget says, and one that is gone at
most one more. The counter that is compared with the budget stops at its largest value, so a budget
of that size is never exceeded. `binds_iff` says exactly which submissions are held to their budget.
-/

namespace Timeshare

namespace Scheduler

/-- Whatever is asked, the process made from a submission runs at most one instruction more than
its budget says, and not even that one while it is alive. -/
def Binds (submission : Submission) : Prop :=
  ∀ config granted events s id, Run config granted events s → granted[id]? = some submission →
    (s.table.isLive id = true → Event.executions id events ≤ submission.budget.toNat) ∧
    (s.table.isLive id = false → Event.executions id events ≤ submission.budget.toNat + 1)

/-- Whether a program comes to a STOP before the counter of instructions is at its limit. -/
def StopsInTime (image : List UInt8) : Prop :=
  ∃ j < 4294967296, (Machine.step^[j] (Machine.ofImage image)).fetch = .stop

section

variable {submission : Submission} {id : ProcessId} {n : Nat}

theorem unstopped_of_not_stopsInTime (h : ¬ StopsInTime submission.image) :
    (submission.process id).Unstopped 4294967296 := by
  rw [Process.unstopped_iff]
  intro j hj stops
  exact h ⟨j, hj, stops⟩

/-! ## Processes that are held to their budget -/

/-- Nobody survives more instructions than the budget says. -/
theorem le_budget_of_survives (survives : (submission.process id).Survives n)
    (h : submission.budget ≠ Cycles.limit ∨ StopsInTime submission.image) :
    n ≤ submission.budget.toNat := by
  have within := survives.overBudget_eq_false (Process.overBudget_submission submission id)
  rw [← Bool.not_eq_true, Process.overBudget_iterate_iff] at within
  simp only [Submission.process] at within
  by_contra exceeds
  have largest : submission.budget.toNat = 4294967295 := by
    have := submission.budget.toNat_lt
    have : (0 : Cycles).toNat = 0 := rfl
    omega
  rcases h with other | ⟨j, hj, stops⟩
  · exact other (Cycles.eq_limit_iff.mpr largest)
  · have goes := Process.unstopped_iff.mp survives.unstopped j (by omega)
    exact goes stops

theorem binds_of_limited (h : submission.budget ≠ Cycles.limit ∨ StopsInTime submission.image) :
    Binds submission := by
  intro config granted events s id run made
  have faithful := run.history.faithful
  have placed := run.history.placed
  constructor
  · intro live
    obtain ⟨p, found⟩ := placed.isLive_iff.mp live
    obtain ⟨same, made', -, survives⟩ := faithful.alive id p found
    obtain rfl : submission = same := Option.some.inj (made.symm.trans made')
    exact le_budget_of_survives survives h
  · intro gone
    have issued : id < s.table.nextId := by
      rw [← faithful.count]
      exact (List.getElem?_eq_some_iff.mp made).1
    obtain ⟨r, hr, rfl⟩ := faithful.ended id issued (placed.isLive_eq_false_iff.mp gone)
    obtain ⟨-, -, same, made', -, ends⟩ := faithful.recorded r hr
    obtain rfl : submission = same := Option.some.inj (made.symm.trans made')
    generalize Event.executions r.status.id events = k at ends ⊢
    generalize r.ending = ending at ends
    cases ends with
    | killed survives => exact Nat.le_succ_of_le (le_budget_of_survives survives h)
    | last survives _ => exact Nat.succ_le_succ (le_budget_of_survives survives h)

/-! ## Processes that are not -/

theorem isLive_dispatch (s : Scheduler) (id : ProcessId) :
    s.dispatch.value.table.isLive id = s.table.isLive id := by
  simp only [Scheduler.dispatch, Traced.value_bind]
  split
  · rfl
  · exact Table.isLive_update_state _ _ _ _

theorem isLive_requeue (s : Scheduler) (id : ProcessId) :
    s.requeue.value.table.isLive id = s.table.isLive id := by
  unfold Scheduler.requeue
  split
  · rfl
  · exact Table.isLive_update_state _ _ _ _

/-- One process that is given one slice, which it survives. -/
theorem exists_run_of_survives (survives : (submission.process 0).Survives n) :
    ∃ events s, Run ⟨n, 1, 1⟩ [submission] events s ∧ s.table.isLive 0 = true ∧
      Event.executions 0 events = n := by
  let first : Scheduler := (init ⟨n, 1, 1⟩).create submission
  let process : Process := { submission.process 0 with state := .running }
  have created : Run ⟨n, 1, 1⟩ [submission] _ first := Run.start.create rfl submission
  have turn : first.turn? = some 0 := rfl
  have found : first.seated.value.table.get? 0 = some process := rfl
  have slice : process.Survives n := by
    rw [← Process.survives_bare] at survives ⊢
    exact survives
  have afterwards : (first.seated.value.runSlice 0).value.table.get? 0 =
      some (Process.step^[n] process) := by
    rw [runSlice_of_survives found slice]
    exact get?_advance_self _ found
  refine ⟨_, _, created.tick, ?_, ?_⟩
  · rw [tick_eq_of_turn turn, serve, Traced.value_bind, Traced.value_bind, isLive_dispatch,
      isLive_requeue, Table.isLive_iff]
    exact ⟨_, afterwards, Process.iterate_step_dead process n⟩
  · rw [Event.executions_append, executions_tick_of_turn turn found, if_pos rfl]
    change 0 + (process.slice n).executed.length = n
    rw [Process.length_slice_of_survives slice, Nat.zero_add]

/-- A program that goes on for too long outlives the largest budget. -/
theorem not_binds_of_unlimited (largest : submission.budget = Cycles.limit)
    (h : ¬ StopsInTime submission.image) : ¬ Binds submission := by
  have within : (Process.step^[4294967296] (submission.process 0)).overBudget = false := by
    rw [← Bool.not_eq_true, Process.overBudget_iterate_iff]
    simp only [Submission.process, largest, Cycles.toNat_limit]
    omega
  have survives := Process.survives_of_unstopped (unstopped_of_not_stopsInTime h) within
  obtain ⟨events, s, run, live, count⟩ := exists_run_of_survives survives
  intro binds
  have bound := (binds _ _ _ _ 0 run rfl).1 live
  rw [count, largest, Cycles.toNat_limit] at bound
  exact absurd bound (by decide)

/-! ## Who is held to the budget -/

/-- A budget binds unless it is the largest one and the program goes on for too long. -/
theorem binds_iff (submission : Submission) :
    Binds submission ↔ submission.budget ≠ Cycles.limit ∨ StopsInTime submission.image := by
  constructor
  · intro binds
    by_contra h
    obtain ⟨largest, goes⟩ := not_or.mp h
    exact not_binds_of_unlimited (not_not.mp largest) goes binds
  · exact binds_of_limited

/-- A loop with the largest budget is not held to it. -/
theorem not_binds_loop : ¬ Binds ⟨0, .low, Cycles.limit, "loop", loopImage⟩ := by
  have fixed : Function.IsFixedPt Machine.step (Machine.ofImage loopImage) := by decide
  apply not_binds_of_unlimited rfl
  rintro ⟨j, -, stops⟩
  rw [fixed.iterate j] at stops
  exact absurd stops (by decide)

end

end Scheduler

end Timeshare
