import Mathlib
import Timeshare.Proofs.Process.Lone

/-!
# What instructions leave behind

Flags, accumulator and memory tell what a program has done, however it rewrites itself meanwhile. A
flag is up exactly if it was up at the start or some sum or difference on the way has raised it
(`flag_iterate_iff`), since no other instruction touches the flags (`flags_step_of_quiet`) and none
takes a flag down. A word of memory is the one that was stored there last, or still the one of the
start (`read_iterate`). `remembers` puts this together.
-/

namespace Timeshare

namespace Machine

variable {m : Machine} {x y : Nat} {r q : Int} {address : Address}

/-- The next instruction adds a word `y` to the accumulator, which holds `x`. -/
def Adds (m : Machine) (x y : Nat) : Prop :=
  ∃ address, m.fetch = .add address ∧
    m.accumulator.toNat = x ∧ (m.memory.read address).toNat = y

/-- The next instruction takes a word `y` from the accumulator, which holds `x`. -/
def Subtracts (m : Machine) (x y : Nat) : Prop :=
  ∃ address, m.fetch = .subtract address ∧
    m.accumulator.toNat = x ∧ (m.memory.read address).toNat = y

/-- The next instruction is arithmetic, with that exact result. -/
inductive Yields (m : Machine) : Int → Prop
  | sum {x y : Nat} : m.Adds x y → Yields m (x + y)
  | difference {x y : Nat} : m.Subtracts x y → Yields m (x - y)

/-! ## Arithmetic -/

/-- An arithmetic instruction sets its result and does nothing else. -/
theorem step_of_yields (h : m.Yields r) :
    m.step = { m with counter := m.counter + 1 }.setResult r := by
  cases h with
  | sum adds =>
    obtain ⟨address, fetched, rfl, rfl⟩ := adds
    rw [step, fetched]
    rfl
  | difference subtracts =>
    obtain ⟨address, fetched, rfl, rfl⟩ := subtracts
    rw [step, fetched]
    rfl

/-- Instructions without a result do not touch the flags. -/
theorem flags_step_of_quiet (quiet : ∀ r, ¬ m.Yields r) : m.step.flags = m.flags := by
  cases fetched : m.fetch <;> simp only [step, fetched, execute, branchIf]
  case add address => exact absurd (.sum ⟨address, fetched, rfl, rfl⟩) (quiet _)
  case subtract address => exact absurd (.difference ⟨address, fetched, rfl, rfl⟩) (quiet _)
  case branchIfPositive | branchIfNegative | branchIfZero => split <;> rfl

theorem Yields.unique (h : m.Yields r) (h' : m.Yields q) : r = q := by
  cases h with
  | sum adds =>
    obtain ⟨a, fetched, rfl, rfl⟩ := adds
    cases h' with
    | sum adds =>
      obtain ⟨b, fetched', rfl, rfl⟩ := adds
      cases fetched.symm.trans fetched'
      rfl
    | difference subtracts =>
      obtain ⟨b, fetched', -⟩ := subtracts
      cases fetched.symm.trans fetched'
  | difference subtracts =>
    obtain ⟨a, fetched, rfl, rfl⟩ := subtracts
    cases h' with
    | sum adds =>
      obtain ⟨b, fetched', -⟩ := adds
      cases fetched.symm.trans fetched'
    | difference subtracts =>
      obtain ⟨b, fetched', rfl, rfl⟩ := subtracts
      cases fetched.symm.trans fetched'
      rfl

theorem accumulator_step_of_yields (h : m.Yields r) :
    (m.step.accumulator.toNat : Int) = r % 256 := by
  have low : 0 ≤ r % 256 := Int.emod_nonneg r (by decide)
  have high : r % 256 < 256 := Int.emod_lt_of_pos r (by decide)
  rw [step_of_yields h, setResult, UInt8.toNat_ofNat_of_lt' (by simp only [UInt8.size]; omega)]
  exact Int.toNat_of_nonneg low

/-! ## Flags -/

/-- A flag that a step raises for some results is up behind the step if it was up before, or if the
step has such a result. -/
theorem flag_step_iff (flag : Flags → Bool) (either : ∀ f g, flag (f.raise g) = (flag f || flag g))
    (m : Machine) : flag m.step.flags = true ↔
      flag m.flags = true ∨ ∃ r, m.Yields r ∧ flag (Flags.ofResult r) = true := by
  by_cases arithmetic : ∃ r, m.Yields r
  · obtain ⟨r, h⟩ := arithmetic
    have raised : m.step.flags = m.flags.raise (Flags.ofResult r) := by rw [step_of_yields h]; rfl
    rw [raised, either, Bool.or_eq_true]
    refine or_congr_right ⟨fun up => ⟨r, h, up⟩, ?_⟩
    rintro ⟨q, h', up⟩
    rwa [h.unique h']
  · rw [flags_step_of_quiet (not_exists.mp arithmetic)]
    refine (or_iff_left ?_).symm
    rintro ⟨r, h, -⟩
    exact arithmetic ⟨r, h⟩

/-- A flag is up behind some steps if it was up before them, or if one of them has raised it. -/
theorem flag_iterate_iff (flag : Flags → Bool)
    (either : ∀ f g, flag (f.raise g) = (flag f || flag g)) (m : Machine) (n : Nat) :
    flag (step^[n] m).flags = true ↔ flag m.flags = true ∨
      ∃ j < n, ∃ r, (step^[j] m).Yields r ∧ flag (Flags.ofResult r) = true := by
  induction n with
  | zero => simp
  | succ n ih =>
    rw [Function.iterate_succ_apply', flag_step_iff flag either, ih, Nat.exists_lt_succ_right, or_assoc]

theorem exists_zero_iff :
    (∃ r, m.Yields r ∧ (Flags.ofResult r).zero = true) ↔ m.Yields 0 := by
  simp [Flags.ofResult]

/-- Only a difference is ever negative. -/
theorem exists_negative_iff :
    (∃ r, m.Yields r ∧ (Flags.ofResult r).negative = true) ↔ ∃ x y, m.Subtracts x y ∧ x < y := by
  simp only [Flags.ofResult, decide_eq_true_eq]
  constructor
  · rintro ⟨r, h, negative⟩
    cases h with
    | sum adds => omega
    | @difference x y subtracts => exact ⟨x, y, subtracts, by omega⟩
  · rintro ⟨x, y, subtracts, less⟩
    exact ⟨_, .difference subtracts, by omega⟩

/-- Only a sum is ever too large for a word. -/
theorem exists_overflow_iff :
    (∃ r, m.Yields r ∧ (Flags.ofResult r).overflow = true) ↔
      ∃ x y, m.Adds x y ∧ 255 < x + y := by
  simp only [Flags.ofResult, decide_eq_true_eq]
  constructor
  · rintro ⟨r, h, large⟩
    cases h with
    | @sum x y adds => exact ⟨x, y, adds, by omega⟩
    | difference subtracts =>
      obtain ⟨address, -, rfl, -⟩ := subtracts
      have word := m.accumulator.toNat_lt
      omega
  · rintro ⟨x, y, adds, large⟩
    exact ⟨_, .sum adds, by omega⟩

/-! ## Memory -/

theorem read_step_of_store (h : m.fetch = .store address) :
    m.step.memory.read address = m.accumulator := by
  rw [step, h]
  simp [execute, Memory.read, Memory.write]

/-- A word changes only by an instruction that stores there. -/
theorem read_step_of_ne (h : m.fetch ≠ .store address) :
    m.step.memory.read address = m.memory.read address := by
  cases fetched : m.fetch <;> simp only [step, fetched, execute, setResult, branchIf]
  case store other =>
    have different : other.val ≠ address.val := by
      rintro same
      exact h (by rw [fetched, Fin.ext same])
    simp [Memory.read, Memory.write, different]
  case branchIfPositive | branchIfNegative | branchIfZero => split <;> rfl

/-- A word is still the one of the start and nothing was stored there, or it is the one that the last
instruction to store there has stored. -/
theorem read_iterate (m : Machine) (address : Address) (n : Nat) :
    (∀ j < n, (step^[j] m).fetch ≠ .store address) ∧
        (step^[n] m).memory.read address = m.memory.read address ∨
      ∃ j < n, (step^[j] m).fetch = .store address ∧
        (∀ i, j < i → i < n → (step^[i] m).fetch ≠ .store address) ∧
        (step^[n] m).memory.read address = (step^[j] m).accumulator := by
  induction n with
  | zero => exact .inl ⟨fun j below => absurd below j.not_lt_zero, rfl⟩
  | succ n ih =>
    rw [Function.iterate_succ_apply']
    by_cases stores : (step^[n] m).fetch = .store address
    · refine .inr ⟨n, n.lt_succ_self, stores, fun i above below => ?_, read_step_of_store stores⟩
      exact absurd above (Nat.not_lt.mpr (Nat.lt_succ_iff.mp below))
    · rw [read_step_of_ne stores]
      rcases ih with ⟨never, same⟩ | ⟨j, earlier, stored, last, word⟩
      · exact .inl ⟨Nat.forall_lt_succ_right.mpr ⟨never, stores⟩, same⟩
      · refine .inr ⟨j, Nat.lt_succ_of_lt earlier, stored, fun i above below => ?_, word⟩
        rcases Nat.lt_succ_iff_lt_or_eq.mp below with below | rfl
        · exact last i above below
        · exact stores

end Machine

namespace Process

/-- How a process shows what it has done since some point, be it new or not at that point. -/
structure Remembers (p : Process) : Prop where
  /-- The zero flag is up if it was so at the start or a result was exactly zero. -/
  zero : ∀ n, (step^[n] p).machine.flags.zero = true ↔
    p.machine.flags.zero = true ∨ ∃ j < n, (step^[j] p).machine.Yields 0
  /-- The negative flag is up if it was so at the start or something was taken from less. -/
  negative : ∀ n, (step^[n] p).machine.flags.negative = true ↔
    p.machine.flags.negative = true ∨
      ∃ j < n, ∃ x y, (step^[j] p).machine.Subtracts x y ∧ x < y
  /-- The overflow flag is up if it was so at the start or a sum had no room in a word. -/
  overflow : ∀ n, (step^[n] p).machine.flags.overflow = true ↔
    p.machine.flags.overflow = true ∨
      ∃ j < n, ∃ x y, (step^[j] p).machine.Adds x y ∧ 255 < x + y
  /-- Arithmetic leaves its exact result in the accumulator, apart from multiples of 256. -/
  accumulator : ∀ j r, (step^[j] p).machine.Yields r →
    ((step^[j + 1] p).machine.accumulator.toNat : Int) = r % 256
  /-- So a sum of 256 leaves zero, and the zero flag as it was. -/
  carry : ∀ j x y, (step^[j] p).machine.Adds x y → x + y = 256 →
    (step^[j + 1] p).machine.accumulator = 0 ∧
      (step^[j + 1] p).machine.flags.zero = (step^[j] p).machine.flags.zero
  /-- A word of memory is still the same and nothing was stored there, or it is the accumulator that
  was stored there last. -/
  memory : ∀ n (address : Address),
    (∀ j < n, (step^[j] p).upcoming.instruction ≠ .store address) ∧
        (step^[n] p).machine.memory.read address = p.machine.memory.read address ∨
      ∃ j < n, (step^[j] p).upcoming.instruction = .store address ∧
        (∀ i, j < i → i < n → (step^[i] p).upcoming.instruction ≠ .store address) ∧
        (step^[n] p).machine.memory.read address = (step^[j] p).machine.accumulator
  /-- Apart from the machine and the count of instructions a process stays as it is. -/
  others : ∀ n, step^[n] p =
    { p with executed := (step^[n] p).executed, machine := (step^[n] p).machine }

/-- Flags, accumulator and memory of every process tell what it has done. -/
theorem remembers (p : Process) : Remembers p := by
  constructor
  case zero =>
    intro n
    simp only [machine_iterate_step, Machine.flag_iterate_iff Flags.zero fun _ _ => rfl,
      Machine.exists_zero_iff]
  case negative =>
    intro n
    simp only [machine_iterate_step, Machine.flag_iterate_iff Flags.negative fun _ _ => rfl,
      Machine.exists_negative_iff]
  case overflow =>
    intro n
    simp only [machine_iterate_step, Machine.flag_iterate_iff Flags.overflow fun _ _ => rfl,
      Machine.exists_overflow_iff]
  case accumulator =>
    intro j r result
    rw [Function.iterate_succ_apply']
    exact Machine.accumulator_step_of_yields result
  case carry =>
    intro j x y adds sum
    rw [Function.iterate_succ_apply']
    have result : (step^[j] p).machine.Yields 256 := by
      have exact_sum := Machine.Yields.sum adds
      rwa [← Nat.cast_add, sum] at exact_sum
    change (step^[j] p).machine.step.accumulator = 0 ∧ (step^[j] p).machine.step.flags.zero = _
    rw [Machine.step_of_yields result]
    exact ⟨rfl, Bool.or_false _⟩
  case memory =>
    intro n address
    have words := p.machine.read_iterate address n
    simp only [← machine_iterate_step] at words
    exact words
  case others => exact fun n => iterate_step_eq p n

/-- A program adds 128 twice, which raises the overflow flag and not the zero flag, takes one from
what that leaves, and stores the result over the word that it has added. -/
example :
    let image : List UInt8 := [0x64, 0x64, 0x85, 0x44, 0x80, 0x01]
    let p : Process := Submission.process ⟨0, .low, 9, "p", image⟩ 0
    (step^[1] p).machine.Adds 128 128 ∧ (step^[2] p).machine.flags = ⟨false, false, true⟩ ∧
      (step^[2] p).machine.Subtracts 0 1 ∧ (step^[4] p).machine.flags = ⟨false, true, true⟩ ∧
      (step^[4] p).machine.memory.read 4 = 255 :=
  ⟨⟨4, by decide, by decide, by decide⟩, by decide, ⟨5, by decide, by decide, by decide⟩,
    by decide, by decide⟩

end Process

end Timeshare
