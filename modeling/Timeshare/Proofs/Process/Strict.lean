import Mathlib
import Timeshare.Proofs.Process.Branches

/-!
# Strict steps

Counters are kept in 64 bits: a counter is moved on as a number with a sign, and the address that is
shown for an instruction is one less than the counter behind it. Operations and operands are bits of
a word. A strict step takes none of this for granted and has no result where a number has no room or
an operand is no address; it has one, the same as that of a step, as long as the counter can be moved
on (`strictStep?_eq_some_iff`). That can always be done in a program that has not come to a STOP,
since a STOP is read past the end of memory and branches lead back into it: the counter of a program
that goes on is an address or the one behind the last (`counter_le_of_unstopped`), and only a STOP
that is read there takes it further (`Ends.counter_eq_iff`).
-/

namespace Timeshare

/-- A number that has room in 64 bits of which one is the sign. -/
def signed? (n : Int) : Option Int := if -2 ^ 63 ≤ n ∧ n < 2 ^ 63 then some n else none

/-- A number that has room in 64 bits without a sign. -/
def unsigned? (n : Int) : Option Nat := if 0 ≤ n ∧ n < 2 ^ 64 then some n.toNat else none

theorem signed?_natCast {n : Nat} (room : n < 2 ^ 63) : signed? n = some (n : Int) :=
  if_pos (by omega)

theorem unsigned?_natCast {n : Nat} (room : n < 2 ^ 64) : unsigned? n = some n :=
  if_pos (by omega)

/-- Some bits of a word, from the lowest one of them on, as a number. -/
def bits (word : UInt8) (start length : Nat) : Nat :=
  (word.toNat >>> start) &&& ((1 <<< length) - 1)

theorem bits_eq (word : UInt8) (start length : Nat) :
    bits word start length = word.toNat / 2 ^ start % 2 ^ length := by
  rw [bits, Nat.shiftRight_eq_div_pow, Nat.one_shiftLeft, Nat.and_two_pow_sub_one_eq_mod]

namespace Instruction

/-- The instruction of an operation and an operand given as numbers, if there are such ones. -/
def ofNumbers? (operation operand : Nat) : Option Instruction :=
  if h : operand < wordCount then
    match operation with
    | 0 => some stop
    | 1 => some (load ⟨operand, h⟩)
    | 2 => some (store ⟨operand, h⟩)
    | 3 => some (add ⟨operand, h⟩)
    | 4 => some (subtract ⟨operand, h⟩)
    | 5 => some (branchIfPositive ⟨operand, h⟩)
    | 6 => some (branchIfNegative ⟨operand, h⟩)
    | 7 => some (branchIfZero ⟨operand, h⟩)
    | _ => none
  else none

/-- The upper three bits of a word and its lower five are those of its instruction. -/
theorem ofNumbers?_bits (word : UInt8) :
    ofNumbers? (bits word 5 3) (bits word 0 5) = some (decode word) := by
  have upper : bits word 5 3 = word.toNat / 32 := by
    rw [bits_eq]
    have := word.toNat_lt
    omega
  have lower : bits word 0 5 = word.toNat % 32 := by
    rw [bits_eq]
    omega
  have inside : word.toNat % 32 < wordCount := Nat.mod_lt _ (by decide)
  have few : word.toNat / 32 < 8 := by
    have := word.toNat_lt
    omega
  rw [upper, lower, ofNumbers?, dif_pos inside, decode]
  generalize word.toNat / 32 = operation at few
  interval_cases operation <;> rfl

end Instruction

namespace Machine

variable {m : Machine}

/-- A step with the instruction and the address that is shown for it, if every number that comes up
on the way has room and every operand is an address. -/
def strictStep? (m : Machine) : Option (Machine × Execution) := do
  let here ← signed? m.counter
  let next ← signed? (here + 1)
  let moved : Machine := { m with counter := next.toNat }
  let shown ← unsigned? (moved.counter - 1)
  let word := m.memory.read m.counter
  let instruction ← Instruction.ofNumbers? (bits word 5 3) (bits word 0 5)
  return (moved.execute instruction, ⟨shown, instruction⟩)

/-- A counter that can be moved on is all that a strict step needs. -/
theorem strictStep?_eq_some_iff :
    m.strictStep? = some (m.step, ⟨m.counter, m.fetch⟩) ↔ m.counter + 1 < 2 ^ 63 := by
  by_cases room : m.counter + 1 < 2 ^ 63
  · refine iff_of_true ?_ room
    have here : signed? m.counter = some (m.counter : Int) := signed?_natCast (by omega)
    have next : signed? (m.counter + 1) = some ((m.counter : Int) + 1) := signed?_natCast room
    have moved : ((m.counter : Int) + 1).toNat = m.counter + 1 := Int.toNat_natCast_add_one
    have shown : unsigned? ((m.counter + 1 : Nat) - 1) = some m.counter := by
      rw [Nat.cast_add_one, add_sub_cancel_right]
      exact unsigned?_natCast (by omega)
    rw [strictStep?, here, Option.bind_eq_bind, Option.bind_some, next, Option.bind_eq_bind,
      Option.bind_some, moved]
    simp only [shown, Instruction.ofNumbers?_bits, Option.bind_eq_bind, Option.bind_some]
    rfl
  · refine iff_of_false ?_ room
    intro steps
    rw [strictStep?, Option.bind_eq_bind, Option.bind_eq_some_iff] at steps
    obtain ⟨here, held, later⟩ := steps
    rw [Option.bind_eq_bind, Option.bind_eq_some_iff] at later
    obtain ⟨next, moved, -⟩ := later
    simp only [signed?, Option.ite_none_right_eq_some, Option.some_inj] at held moved
    omega

theorem strictStep?_of_counter_le (within : m.counter ≤ wordCount) :
    m.strictStep? = some (m.step, ⟨m.counter, m.fetch⟩) :=
  strictStep?_eq_some_iff.mpr ((Nat.succ_le_succ within).trans_lt (by decide))

/-- The counter can become too large to be moved on. -/
example : ({ counter := 2 ^ 63 - 1, memory := Memory.ofImage [] } : Machine).strictStep? = none := by
  decide

/-! ## Counters -/

theorem counter_lt_of_goes (goes : m.fetch ≠ .stop) : m.counter < wordCount := by
  by_contra past
  exact goes (fetch_of_past (Nat.not_lt.mp past))

/-- A step from an address leads to an address or behind the last one. -/
theorem counter_step_le (inside : m.counter < wordCount) : m.step.counter ≤ wordCount := by
  cases taken : m.taken? with
  | none =>
    rw [counter_step_of_not_taken taken]
    exact inside
  | some b =>
    obtain ⟨address, -, step⟩ := step_of_taken taken
    rw [step]
    exact address.isLt.le

theorem counter_step_of_stop (stops : m.fetch = .stop) : m.step.counter = m.counter + 1 := by
  rw [step, stops]
  rfl

end Machine

namespace Process

variable {p : Process} {k : Nat} {ending : Ending}

/-- The first `k` instructions, with their addresses, in order. -/
def executions (k : Nat) (p : Process) : List Execution :=
  (List.range k).map fun j => (step^[j] p).upcoming

theorem executions_succ (k : Nat) (p : Process) :
    p.executions (k + 1) = p.executions k ++ [(step^[k] p).upcoming] := by
  rw [executions, List.range_succ, List.map_append, List.map_singleton]
  rfl

/-- Only the last instruction of a process is not survived. -/
theorem Ends.survives {j : Nat} (ends : p.Ends k ending) (earlier : j < k) : p.Survives j := by
  cases ends with
  | killed survives => exact fun i hi => survives i (hi.trans earlier)
  | last survives _ => exact fun i hi => survives i (hi.trans_le (Nat.le_of_lt_succ earlier))

/-- Instructions that are no STOP leave the counter at an address or behind the last one. -/
theorem counter_le_of_unstopped (goes : p.Unstopped k) (start : p.machine.counter ≤ wordCount) :
    (step^[k] p).machine.counter ≤ wordCount := by
  cases k with
  | zero => exact start
  | succ k =>
    rw [Function.iterate_succ_apply']
    exact Machine.counter_step_le (Machine.counter_lt_of_goes (goes k k.lt_succ_self))

/-- The last instruction of a process can take the counter one further. -/
theorem Ends.counter_le (ends : p.Ends k ending) (start : p.machine.counter ≤ wordCount) :
    (step^[k] p).machine.counter ≤ wordCount + 1 := by
  cases ends with
  | killed survives => exact (counter_le_of_unstopped survives.unstopped start).trans (by omega)
  | @last j _ survives _ =>
    have before := counter_le_of_unstopped survives.unstopped start
    rw [Function.iterate_succ_apply']
    change (step^[j] p).machine.step.counter ≤ wordCount + 1
    by_cases inside : (step^[j] p).machine.counter < wordCount
    · exact (Machine.counter_step_le inside).trans (by omega)
    · rw [Machine.counter_step_of_stop (Machine.fetch_of_past (by omega))]
      omega

/-- It does so if it is a STOP that is read past the end of memory, and in no other case. -/
theorem Ends.counter_eq_iff (ends : p.Ends k ending) (start : p.machine.counter ≤ wordCount) :
    (step^[k] p).machine.counter = wordCount + 1 ↔
      ending = .completed ∧ (p.executions k).getLast? = some ⟨wordCount, .stop⟩ := by
  cases ends with
  | killed survives =>
    have within := counter_le_of_unstopped survives.unstopped start
    exact iff_of_false (by omega) (by simp)
  | @last j _ survives verdict =>
    rw [executions_succ, List.getLast?_concat, Option.some_inj, Function.iterate_succ_apply']
    generalize step^[j] p = q at verdict
    change q.machine.step.counter = wordCount + 1 ↔ _ ∧ Execution.mk _ q.machine.fetch = _
    rw [Execution.mk.injEq]
    cases ending with
    | completed =>
      have stops : q.machine.fetch = .stop := verdict_eq_completed_iff.mp verdict
      rw [Machine.counter_step_of_stop stops]
      simp [stops]
    | timeLimit =>
      have goes : q.machine.fetch ≠ .stop := (verdict_eq_timeLimit_iff.mp verdict).1
      have within := Machine.counter_step_le (Machine.counter_lt_of_goes goes)
      exact iff_of_false (by omega) (by simp)
    | killed => exact absurd verdict verdict_ne_killed

end Process

end Timeshare
