import Mathlib
import Timeshare.Process.Slice

/-!
# Lone runs

A process by itself: one instruction after another, with no queue, no slice and no other process.
This is what the schedule of a process is measured against. `Survives` says that none of the first
instructions is the last one, `Ends` says how many instructions a process has run when it comes to
an end and which end it is, and `Justified` spells that out in terms of STOP and of the budget.
-/

namespace Timeshare

namespace Process

variable {p : Process} {k : Nat}

/-! ## Iterated steps -/

/-- Steps change the counter of instructions and the machine, and nothing else. -/
theorem iterate_step_eq (p : Process) (k : Nat) :
    step^[k] p = { p with executed := (step^[k] p).executed, machine := (step^[k] p).machine } := by
  induction k with
  | zero => rfl
  | succ k ih =>
    rw [Function.iterate_succ_apply', ih]
    rfl

theorem iterate_step_id (p : Process) (k : Nat) : (step^[k] p).id = p.id := by
  rw [iterate_step_eq]

theorem iterate_step_budget (p : Process) (k : Nat) : (step^[k] p).budget = p.budget := by
  rw [iterate_step_eq]

theorem iterate_step_dead (p : Process) (k : Nat) : (step^[k] p).dead = p.dead := by
  rw [iterate_step_eq]

theorem machine_iterate_step (p : Process) (k : Nat) :
    (step^[k] p).machine = Machine.step^[k] p.machine := by
  induction k with
  | zero => rfl
  | succ k ih =>
    rw [Function.iterate_succ_apply', Function.iterate_succ_apply', ← ih]
    rfl

/-- The counter of instructions counts them up to its limit. -/
theorem toNat_executed_iterate (p : Process) (k : Nat) :
    (step^[k] p).executed.toNat = min (p.executed.toNat + k) 4294967295 := by
  induction k with
  | zero =>
    have := p.executed.toNat_lt
    simp only [Function.iterate_zero, id_eq]
    omega
  | succ k ih =>
    rw [Function.iterate_succ_apply']
    change (Cycles.next (step^[k] p).executed).toNat = _
    rw [Cycles.toNat_next, ih]
    omega

theorem overBudget_iff : p.overBudget = true ↔ p.budget.toNat < p.executed.toNat := by
  rw [overBudget, decide_eq_true_iff, UInt32.lt_iff_toNat_lt]

theorem overBudget_eq_false_iff : p.overBudget = false ↔ p.executed.toNat ≤ p.budget.toNat := by
  rw [← Bool.not_eq_true, overBudget_iff, Nat.not_lt]

/-- Being over budget in terms of the number of instructions alone. -/
theorem overBudget_iterate_iff :
    (step^[k] p).overBudget = true ↔
      p.budget.toNat < min (p.executed.toNat + k) 4294967295 := by
  rw [overBudget_iff, iterate_step_budget, toNat_executed_iterate]

theorem overBudget_iterate_mono {i j : Nat} (hij : i ≤ j)
    (h : (step^[j] p).overBudget = false) : (step^[i] p).overBudget = false := by
  rw [← Bool.not_eq_true, overBudget_iterate_iff] at h ⊢
  omega

/-! ## Verdicts -/

theorem verdict_eq_none_iff :
    p.verdict = none ↔ p.upcoming.instruction ≠ .stop ∧ p.step.overBudget = false := by
  unfold verdict
  split <;> simp_all

theorem verdict_eq_completed_iff :
    p.verdict = some .completed ↔ p.upcoming.instruction = .stop := by
  unfold verdict
  split
  · simp_all
  · split <;> simp_all

theorem verdict_eq_timeLimit_iff :
    p.verdict = some .timeLimit ↔ p.upcoming.instruction ≠ .stop ∧ p.step.overBudget = true := by
  unfold verdict
  split <;> simp_all

/-- Nobody is killed by running. -/
theorem verdict_ne_killed : p.verdict ≠ some .killed := by
  unfold verdict
  split
  · simp
  · split <;> simp

/-! ## Survival -/

/-- None of the first `k` instructions is the last one. -/
def Survives (p : Process) (k : Nat) : Prop := ∀ j < k, (step^[j] p).verdict = none

/-- None of the first `k` instructions is a STOP. -/
def Unstopped (p : Process) (k : Nat) : Prop :=
  ∀ j < k, (step^[j] p).upcoming.instruction ≠ .stop

theorem unstopped_iff :
    p.Unstopped k ↔ ∀ j < k, (Machine.step^[j] p.machine).fetch ≠ .stop := by
  refine forall₂_congr fun j _ => ?_
  rw [← machine_iterate_step]
  rfl

theorem survives_zero (p : Process) : p.Survives 0 := fun _ hj => absurd hj (Nat.not_lt_zero _)

theorem survives_succ_iff : p.Survives (k + 1) ↔ p.Survives k ∧ (step^[k] p).verdict = none := by
  constructor
  · intro h
    exact ⟨fun j hj => h j (Nat.lt_succ_of_lt hj), h k (Nat.lt_succ_self k)⟩
  · rintro ⟨h, hk⟩ j hj
    rcases Nat.lt_succ_iff_lt_or_eq.mp hj with hlt | rfl
    · exact h j hlt
    · exact hk

theorem survives_succ_iff_step : p.Survives (k + 1) ↔ p.verdict = none ∧ p.step.Survives k := by
  constructor
  · intro h
    refine ⟨h 0 (Nat.succ_pos k), fun j hj => ?_⟩
    rw [← Function.iterate_succ_apply]
    exact h (j + 1) (Nat.succ_lt_succ hj)
  · rintro ⟨h0, h⟩ j hj
    cases j with
    | zero => exact h0
    | succ j =>
      rw [Function.iterate_succ_apply]
      exact h j (Nat.lt_of_succ_lt_succ hj)

theorem Survives.unstopped (h : p.Survives k) : p.Unstopped k :=
  fun j hj => (verdict_eq_none_iff.mp (h j hj)).1

/-- A process that is within budget at the start is so for as long as it survives. -/
theorem Survives.overBudget_eq_false (h : p.Survives k) (h0 : p.overBudget = false) :
    (step^[k] p).overBudget = false := by
  cases k with
  | zero => exact h0
  | succ k =>
    rw [Function.iterate_succ_apply']
    exact (verdict_eq_none_iff.mp (h k (Nat.lt_succ_self k))).2

/-- A process that neither stops nor overruns survives. -/
theorem survives_of_unstopped (h : p.Unstopped k) (hk : (step^[k] p).overBudget = false) :
    p.Survives k := by
  intro j hj
  have next : (step^[j + 1] p).overBudget = false := overBudget_iterate_mono hj hk
  rw [Function.iterate_succ_apply'] at next
  exact verdict_eq_none_iff.mpr ⟨h j hj, next⟩

/-! ## Ends -/

/-- How a process ends after so many instructions. It can be killed while it survives; else the
verdict on its last instruction is its end. -/
inductive Ends (p : Process) : Nat → Ending → Prop
  | killed {k : Nat} (h : p.Survives k) : Ends p k .killed
  | last {k : Nat} {ending : Ending} (h : p.Survives k)
      (hv : (step^[k] p).verdict = some ending) : Ends p (k + 1) ending

/-- What an end says about the `k` instructions before it. -/
def Justified (p : Process) (k : Nat) : Ending → Prop
  | .killed => p.Unstopped k ∧ (step^[k] p).overBudget = false
  | .completed => ∃ j, k = j + 1 ∧ p.Unstopped j ∧ (step^[j] p).upcoming.instruction = .stop ∧
      ∀ i ≤ j, (step^[i] p).overBudget = false
  | .timeLimit => ∃ j, k = j + 1 ∧ p.Unstopped k ∧ (step^[k] p).overBudget = true ∧
      ∀ i ≤ j, (step^[i] p).overBudget = false

/-- The end of a process that started within budget is justified. -/
theorem Ends.justified {ending : Ending} (h : p.Ends k ending) (h0 : p.overBudget = false) :
    p.Justified k ending := by
  cases h with
  | killed h => exact ⟨h.unstopped, h.overBudget_eq_false h0⟩
  | @last j _ h hv =>
    have within : ∀ i ≤ j, (step^[i] p).overBudget = false :=
      fun i hi => overBudget_iterate_mono hi (h.overBudget_eq_false h0)
    cases ending with
    | completed => exact ⟨j, rfl, h.unstopped, verdict_eq_completed_iff.mp hv, within⟩
    | timeLimit =>
      obtain ⟨hgo, hover⟩ := verdict_eq_timeLimit_iff.mp hv
      refine ⟨j, rfl, fun i hi => ?_, ?_, within⟩
      · rcases Nat.lt_succ_iff_lt_or_eq.mp hi with hlt | rfl
        · exact h.unstopped i hlt
        · exact hgo
      · rwa [Function.iterate_succ_apply']
    | killed => exact absurd hv verdict_ne_killed

/-- A new process is within budget, whatever the budget. -/
theorem overBudget_submission (s : Submission) (id : ProcessId) :
    (s.process id).overBudget = false := by
  rw [overBudget_eq_false_iff]
  exact Nat.zero_le _

/-! ## Slices -/

theorem slice_go_eq (limit : Nat) (p : Process) (past : List Execution) :
    slice.go limit p past =
      { slice limit p with executed := past.reverse ++ (slice limit p).executed } := by
  induction limit generalizing p past with
  | zero => simp [slice, slice.go]
  | succ limit ih =>
    simp only [slice, slice.go]
    cases p.verdict with
    | none => simp only [ih _ (p.upcoming :: past), ih _ [p.upcoming], List.reverse_cons,
        List.reverse_nil, List.nil_append, List.append_assoc]
    | some ending => simp

theorem slice_zero (p : Process) : p.slice 0 = ⟨p, [], none⟩ := rfl

/-- A slice starts with one instruction; if that is not the last one, a shorter slice follows. -/
theorem slice_succ (limit : Nat) (p : Process) :
    p.slice (limit + 1) =
      match p.verdict with
      | none => { p.step.slice limit with executed := p.upcoming :: (p.step.slice limit).executed }
      | some ending => ⟨p.step, [p.upcoming], some ending⟩ := by
  change slice.go (limit + 1) p [] = _
  rw [slice.go]
  cases p.verdict with
  | none => simp only [slice_go_eq limit p.step [p.upcoming], List.reverse_singleton,
      List.singleton_append]
  | some ending => simp

theorem slice_process (k : Nat) (p : Process) :
    (p.slice k).process = step^[(p.slice k).executed.length] p := by
  induction k generalizing p with
  | zero => rfl
  | succ k ih =>
    rw [slice_succ]
    cases p.verdict with
    | none =>
      simp only [List.length_cons, Function.iterate_succ_apply]
      exact ih p.step
    | some ending => rfl

theorem slice_ending_eq_none_iff : (p.slice k).ending = none ↔ p.Survives k := by
  induction k generalizing p with
  | zero => exact iff_of_true rfl p.survives_zero
  | succ k ih =>
    rw [slice_succ, survives_succ_iff_step]
    cases hv : p.verdict with
    | none => simpa using ih
    | some ending => simp

/-- A slice that is survived is used up. -/
theorem length_slice_of_survives (h : p.Survives k) : (p.slice k).executed.length = k := by
  induction k generalizing p with
  | zero => rfl
  | succ k ih =>
    obtain ⟨goes, later⟩ := survives_succ_iff_step.mp h
    rw [slice_succ, goes, List.length_cons, ih later]

theorem slice_process_of_survives (h : p.Survives k) : (p.slice k).process = step^[k] p := by
  rw [slice_process, length_slice_of_survives h]

theorem slice_process_id (k : Nat) (p : Process) : (p.slice k).process.id = p.id := by
  rw [slice_process, iterate_step_id]

/-! ## Places -/

/-- A process apart from its place in the schedule. -/
def bare (p : Process) : Process := { p with state := .new }

theorem eq_of_bare {p q : Process} (h : p.bare = q) : p = { q with state := p.state } := by
  rw [← h]
  rfl

theorem step_bare (p : Process) : p.bare.step = p.step.bare := rfl

theorem verdict_bare (p : Process) : p.bare.verdict = p.verdict := rfl

theorem iterate_step_bare (p : Process) (k : Nat) : step^[k] p.bare = (step^[k] p).bare := by
  induction k with
  | zero => rfl
  | succ k ih =>
    rw [Function.iterate_succ_apply', ih, step_bare, ← Function.iterate_succ_apply' step]

theorem survives_bare : p.bare.Survives k ↔ p.Survives k := by
  simp only [Survives, iterate_step_bare, verdict_bare]

end Process

end Timeshare
