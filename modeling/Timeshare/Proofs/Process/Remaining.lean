import Mathlib
import Timeshare.Scheduler.RunAll
import Timeshare.Proofs.Process.Lone

/-!
# What a process has left

A budget below the largest count is overrun some day, so a process that has one ends, after
`remaining` instructions. `slicesLeft` is that number in slices: each slice but the last one takes
one from it.
-/

namespace Timeshare

namespace Process

variable {p : Process} {k n : Nat}

/-! ## Instructions -/

theorem not_survives_workLimit (h : p.budget ≠ Cycles.limit) : ¬ p.Survives p.workLimit := by
  intro survives
  have below : p.budget.toNat < 4294967295 := by
    have := p.budget.toNat_lt
    rw [Ne, Cycles.eq_limit_iff] at h
    omega
  have limit : p.workLimit = (p.budget.toNat - p.executed.toNat) + 1 := by
    rw [workLimit, if_neg h]
  rw [limit, survives_succ_iff, verdict_eq_none_iff,
    ← Function.iterate_succ_apply' step] at survives
  have overrun : (step^[p.budget.toNat - p.executed.toNat + 1] p).overBudget = true := by
    rw [overBudget_iterate_iff]
    omega
  exact Bool.noConfusion (overrun.symm.trans survives.2.2)

/-- A slice that is long enough runs a process to its end. -/
theorem survives_iff_lt_length (h : ¬ p.Survives k) :
    p.Survives n ↔ n < (p.slice k).executed.length := by
  induction k generalizing p n with
  | zero => exact absurd p.survives_zero h
  | succ k ih =>
    rw [slice_succ]
    cases n with
    | zero =>
      refine iff_of_true p.survives_zero ?_
      cases p.verdict <;> simp
    | succ n =>
      rw [survives_succ_iff_step] at h ⊢
      cases hv : p.verdict with
      | none =>
        have later : ¬ p.step.Survives k := fun survives => h ⟨hv, survives⟩
        simpa using ih later
      | some ending => simp

theorem length_slice_le : (p.slice k).executed.length ≤ k := by
  induction k generalizing p with
  | zero => exact Nat.le_refl 0
  | succ k ih =>
    rw [slice_succ]
    cases p.verdict with
    | none => simpa using ih
    | some ending => simp

theorem length_slice_pos (hk : 1 ≤ k) : 0 < (p.slice k).executed.length := by
  obtain ⟨k, rfl⟩ := Nat.exists_eq_add_of_le' hk
  rw [slice_succ]
  cases p.verdict <;> simp

/-- The number of instructions until a process ends by itself. -/
def remaining (p : Process) : Nat := (p.slice p.workLimit).executed.length

/-- The last of the remaining instructions is the first one that is not survived. -/
theorem survives_iff_lt_remaining (h : p.budget ≠ Cycles.limit) :
    p.Survives n ↔ n < p.remaining :=
  survives_iff_lt_length (not_survives_workLimit h)

theorem remaining_pos (h : p.budget ≠ Cycles.limit) : 0 < p.remaining :=
  (survives_iff_lt_remaining h).mp p.survives_zero

theorem remaining_le_workLimit : p.remaining ≤ p.workLimit := length_slice_le

/-- What is left after some instructions that were survived. -/
theorem remaining_iterate (h : p.budget ≠ Cycles.limit) (survives : p.Survives k) :
    (step^[k] p).remaining = p.remaining - k := by
  have later : ∀ n, (step^[k] p).Survives n ↔ p.Survives (k + n) := by
    intro n
    constructor
    · intro h' j hj
      by_cases hjk : j < k
      · exact survives j hjk
      · have := h' (j - k) (by omega)
        rwa [← Function.iterate_add_apply, Nat.sub_add_cancel (Nat.le_of_not_lt hjk)] at this
    · intro h' j hj
      rw [← Function.iterate_add_apply, Nat.add_comm]
      exact h' (k + j) (by omega)
  have same : ∀ n, n < (step^[k] p).remaining ↔ n < p.remaining - k := by
    intro n
    rw [← survives_iff_lt_remaining (by rwa [iterate_step_budget]), later,
      survives_iff_lt_remaining h]
    omega
  exact Nat.le_antisymm (Nat.le_of_not_lt fun hlt => Nat.lt_irrefl _ ((same _).mp hlt))
    (Nat.le_of_not_lt fun hlt => Nat.lt_irrefl _ ((same _).mpr hlt))

/-! ## Slices -/

/-- The number of slices until a process ends by itself: what remains, rounded up. -/
def slicesLeft (n : Nat) (p : Process) : Nat := (p.remaining + (n - 1)) / n

theorem slicesLeft_le_workLimit (hn : 1 ≤ n) : slicesLeft n p ≤ p.workLimit := by
  refine Nat.le_trans ?_ remaining_le_workLimit
  rw [slicesLeft, Nat.div_le_iff_le_mul_add_pred (by omega)]
  have := Nat.le_mul_of_pos_left p.remaining hn
  omega

/-- A slice that is survived is one slice less to go. -/
theorem slicesLeft_of_survives (h : p.budget ≠ Cycles.limit) (hn : 1 ≤ n)
    (survives : p.Survives n) : slicesLeft n (step^[n] p) + 1 = slicesLeft n p := by
  have more := (survives_iff_lt_remaining h).mp survives
  rw [slicesLeft, slicesLeft, remaining_iterate h survives, ← Nat.add_div_right _ hn]
  congr 1
  omega

/-- The last slice is the only one left. -/
theorem slicesLeft_of_not_survives (h : p.budget ≠ Cycles.limit) (hn : 1 ≤ n)
    (dies : ¬ p.Survives n) : slicesLeft n p = 1 := by
  have few : p.remaining ≤ n := by
    rw [survives_iff_lt_remaining h] at dies
    exact Nat.le_of_not_lt dies
  have some_left := remaining_pos h
  rw [slicesLeft, Nat.div_eq_iff hn]
  omega

/-- The place of a process has no part in what it does in a slice. -/
theorem slice_bare (k : Nat) (p : Process) :
    p.bare.slice k = { p.slice k with process := (p.slice k).process.bare } := by
  induction k generalizing p with
  | zero => rfl
  | succ k ih =>
    rw [slice_succ, slice_succ, verdict_bare, step_bare, ih p.step]
    cases p.verdict <;> rfl

/-- The place of a process has no part in what it has left. -/
theorem slicesLeft_bare (n : Nat) (p : Process) : slicesLeft n p.bare = slicesLeft n p := by
  have same : p.bare.remaining = p.remaining := by
    rw [remaining, slice_bare]
    rfl
  rw [slicesLeft, same, slicesLeft]

end Process

end Timeshare
