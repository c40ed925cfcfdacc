import Mathlib
import Timeshare.Proofs.Process.Lone

/-!
# Branches

Flags are raised and never cleared, and the three branches ask for different flags. So the branches
that a program takes come in phases, whatever the program makes of its own memory: first those that
ask for no flag, then those that ask for one of the two, always the same one (`pairwise_leads`,
`phases_of_pairwise`). With both flags up no branch is taken any more, and the counter runs straight
to the end of memory, where a STOP is read (`exists_stop_of_locked`).
-/

namespace Timeshare

/-! ## Flags -/

namespace Flags

/-- All that is raised on one side is raised on the other. -/
structure Within (f g : Flags) : Prop where
  zero : f.zero = true → g.zero = true
  negative : f.negative = true → g.negative = true
  overflow : f.overflow = true → g.overflow = true

theorem within_refl (f : Flags) : f.Within f := ⟨id, id, id⟩

theorem Within.trans {f g h : Flags} (fg : f.Within g) (gh : g.Within h) : f.Within h :=
  ⟨gh.zero ∘ fg.zero, gh.negative ∘ fg.negative, gh.overflow ∘ fg.overflow⟩

theorem within_raise (f g : Flags) : f.Within (f.raise g) := by
  constructor <;> intro up <;> simp [raise, up]

end Flags

/-! ## Branches -/

/-- The branches, by the sign of the result that they are meant for. -/
inductive Branch where
  | positive
  | negative
  | zero
  deriving DecidableEq, Repr

namespace Branch

/-- The instruction that branches to an address. -/
def instruction : Branch → Address → Instruction
  | positive => .branchIfPositive
  | negative => .branchIfNegative
  | zero => .branchIfZero

/-- Whether the flags are as a branch asks; overflow plays no part. -/
def asks : Branch → Flags → Bool
  | positive, f => !f.zero && !f.negative
  | negative, f => !f.zero && f.negative
  | zero, f => f.zero && !f.negative

/-- Whether one branch may be taken some time after another one. -/
def Leads (b c : Branch) : Prop := b = positive ∨ b = c

theorem leads_of_asks {b c : Branch} {f g : Flags} (first : b.asks f = true)
    (later : c.asks g = true) (within : f.Within g) : b.Leads c := by
  obtain ⟨zero, negative, -⟩ := within
  cases b <;> cases c <;> simp_all [asks, Leads]

/-- No branch is taken with both flags up. -/
theorem asks_of_locked (b : Branch) {f : Flags} (zero : f.zero = true)
    (negative : f.negative = true) : b.asks f = false := by
  cases b <;> simp [asks, zero, negative]

/-- Branches each of which leads to all later ones: those that ask for no flag come first, and then
there is one kind only. -/
theorem phases_of_pairwise {branches : List Branch} (leads : branches.Pairwise Leads) :
    ∃ n m last, last ≠ positive ∧
      branches = List.replicate n positive ++ List.replicate m last := by
  induction branches with
  | nil => exact ⟨0, 0, zero, by decide, rfl⟩
  | cons b rest ih =>
    obtain ⟨first, others⟩ := List.pairwise_cons.mp leads
    by_cases opens : b = positive
    · obtain ⟨n, m, last, other, split⟩ := ih others
      exact ⟨n + 1, m, last, other, by rw [split, opens]; rfl⟩
    · -- Whatever asks for a flag leads to its own kind only.
      have same : ∀ c ∈ rest, c = b := fun c hc => ((first c hc).resolve_left opens).symm
      refine ⟨0, rest.length + 1, b, opens, ?_⟩
      rw [List.replicate_succ, ← List.eq_replicate_of_mem same]
      rfl

end Branch

/-- The branch that an instruction is, if it is one. -/
def Instruction.branch? : Instruction → Option Branch
  | branchIfPositive _ => some .positive
  | branchIfNegative _ => some .negative
  | branchIfZero _ => some .zero
  | _ => none

/-! ## Steps -/

namespace Machine

variable {m : Machine} {b : Branch} {i j k : Nat}

/-- The branch that the next step takes, if it takes one. -/
def taken? (m : Machine) : Option Branch := m.fetch.branch?.filter fun b => b.asks m.flags

theorem asks_of_taken (h : m.taken? = some b) : b.asks m.flags = true := by
  simpa using (Option.filter_eq_some_iff.mp h).2

/-- A branch that is taken sends the program to its address, and that is all it does. -/
theorem step_of_taken (h : m.taken? = some b) :
    ∃ address, m.fetch = b.instruction address ∧ m.step = { m with counter := address.val } := by
  obtain ⟨is_branch, asked⟩ := Option.filter_eq_some_iff.mp h
  cases fetched : m.fetch <;> rw [fetched] at is_branch <;> cases is_branch
  all_goals
    refine ⟨_, rfl, ?_⟩
    simp only [Branch.asks, Bool.and_eq_true, Bool.not_eq_true'] at asked
    simp [step, fetched, execute, branchIf, asked]

/-- A step that takes no branch goes on to the next address. -/
theorem counter_step_of_not_taken (h : m.taken? = none) : m.step.counter = m.counter + 1 := by
  rw [taken?] at h
  cases fetched : m.fetch <;> simp only [step, fetched, execute, setResult]
  all_goals
    simp only [fetched, Instruction.branch?, Option.filter_some, Branch.asks] at h
    simp only [branchIf]
    split
    · simp_all
    · rfl

/-- A step either leaves the flags as they are or raises those of an arithmetic result. -/
theorem flags_step (m : Machine) :
    m.step.flags = m.flags ∨ ∃ result, m.step.flags = m.flags.raise (Flags.ofResult result) := by
  cases fetched : m.fetch <;> simp only [step, fetched, execute, setResult, branchIf]
  case add => exact .inr ⟨_, rfl⟩
  case subtract => exact .inr ⟨_, rfl⟩
  case branchIfPositive | branchIfNegative | branchIfZero => split <;> exact .inl rfl
  all_goals exact .inl trivial

theorem within_step (m : Machine) : m.flags.Within m.step.flags := by
  rcases m.flags_step with same | ⟨result, raised⟩
  · rw [same]
    exact m.flags.within_refl
  · rw [raised]
    exact m.flags.within_raise _

/-- What is raised stays so. -/
theorem within_iterate (m : Machine) (earlier : i ≤ j) :
    (step^[i] m).flags.Within (step^[j] m).flags := by
  induction earlier with
  | refl => exact Flags.within_refl _
  | step _ ih =>
    rw [Function.iterate_succ_apply']
    exact ih.trans (within_step _)

theorem leads_of_taken {c : Branch} (earlier : i ≤ j) (first : (step^[i] m).taken? = some b)
    (later : (step^[j] m).taken? = some c) : b.Leads c :=
  Branch.leads_of_asks (asks_of_taken first) (asks_of_taken later) (m.within_iterate earlier)

/-! ## Both flags up -/

/-- Whether both flags that branches look at are up. -/
def Locked (m : Machine) : Prop := m.flags.zero = true ∧ m.flags.negative = true

instance (m : Machine) : Decidable m.Locked := inferInstanceAs (Decidable (_ ∧ _))

theorem taken_of_locked (h : m.Locked) : m.taken? = none := by
  rw [taken?, Option.filter_eq_none_iff]
  intro b _
  simp [b.asks_of_locked h.1 h.2]

theorem Locked.iterate (h : m.Locked) (k : Nat) : (step^[k] m).Locked := by
  have within := m.within_iterate k.zero_le
  exact ⟨within.zero h.1, within.negative h.2⟩

/-- Nothing that is stored on the way disturbs the counter. -/
theorem Locked.counter_iterate (h : m.Locked) (k : Nat) :
    (step^[k] m).counter = m.counter + k := by
  induction k with
  | zero => rfl
  | succ k ih =>
    rw [Function.iterate_succ_apply', counter_step_of_not_taken (taken_of_locked (h.iterate k)),
      ih, Nat.add_assoc]

/-- Past the end of memory a STOP is read. -/
theorem fetch_of_past (h : wordCount ≤ m.counter) : m.fetch = .stop := by
  have word : m.memory.read m.counter = 0 := by
    rw [Memory.read, Vector.getElem?_eq_none h]
    rfl
  rw [fetch, word]
  rfl

/-- With both flags up a program stops when it comes to the end of memory, or before. -/
theorem exists_stop_of_locked (h : m.Locked) :
    ∃ k < 33 - min m.counter 32,
      (∀ j < k, (step^[j] m).fetch ≠ .stop) ∧ (step^[k] m).fetch = .stop := by
  -- Here the end of memory is reached; the first STOP may come before.
  have past : (step^[32 - m.counter] m).fetch = .stop := by
    apply fetch_of_past
    rw [h.counter_iterate, wordCount]
    omega
  have stops : ∃ k, (step^[k] m).fetch = .stop := ⟨_, past⟩
  refine ⟨Nat.find stops, ?_, fun j hj => Nat.find_min stops hj, Nat.find_spec stops⟩
  have first := Nat.find_min' stops past
  omega

end Machine

/-! ## Runs -/

namespace Process

variable {p : Process}

/-- The branches that the first `k` instructions take, in order. -/
def branches (k : Nat) (p : Process) : List Branch :=
  (List.range k).filterMap fun j => (step^[j] p).machine.taken?

/-- Each branch that is taken leads to all that are taken later. -/
theorem pairwise_leads (k : Nat) (p : Process) : (p.branches k).Pairwise Branch.Leads := by
  rw [branches, List.pairwise_filterMap]
  refine List.pairwise_lt_range.imp fun earlier b first c later => ?_
  rw [machine_iterate_step] at first later
  exact Machine.leads_of_taken earlier.le first later

/-- How a process branches, from any state of its machine on. -/
structure Phased (p : Process) : Prop where
  /-- An instruction that takes a branch goes to its address, and that is all it does, ... -/
  taken : ∀ j b, (step^[j] p).machine.taken? = some b → ∃ address,
    (step^[j] p).upcoming.instruction = b.instruction address ∧
      (step^[j + 1] p).machine = { (step^[j] p).machine with counter := address.val }
  /-- ... and any other one goes on to the next address. -/
  straight : ∀ j, (step^[j] p).machine.taken? = none →
    (step^[j + 1] p).machine.counter = (step^[j] p).machine.counter + 1
  /-- The branches that ask for no flag come first. After them only those are taken that ask for
  the negative flag, or only those that ask for the zero flag. -/
  branches : ∀ k, ∃ n m last, last ≠ .positive ∧
    p.branches k = List.replicate n .positive ++ List.replicate m last
  /-- Once both flags are up, no branch is taken. -/
  locked : ∀ j, (step^[j] p).machine.Locked → ∀ k ≥ j, (step^[k] p).machine.taken? = none
  /-- Then the process comes to its first STOP when it is at the end of memory, or before. -/
  ends : ∀ j, (step^[j] p).machine.Locked → ∃ k < 33 - min (step^[j] p).machine.counter 32,
    (step^[j] p).Unstopped k ∧ (step^[k] (step^[j] p)).upcoming.instruction = .stop

/-- Every process branches in phases, whatever is in its memory and whatever it stores there. -/
theorem phased (p : Process) : Phased p := by
  constructor
  case taken =>
    intro j b taken
    rw [Function.iterate_succ_apply']
    exact Machine.step_of_taken taken
  case straight =>
    intro j straight
    rw [Function.iterate_succ_apply']
    exact Machine.counter_step_of_not_taken straight
  case branches => exact fun k => Branch.phases_of_pairwise (p.pairwise_leads k)
  case locked =>
    intro j locked k later
    obtain ⟨n, rfl⟩ := Nat.exists_eq_add_of_le' later
    rw [Function.iterate_add_apply, machine_iterate_step]
    exact Machine.taken_of_locked (locked.iterate n)
  case ends =>
    intro j locked
    obtain ⟨k, soon, goes, stops⟩ := Machine.exists_stop_of_locked locked
    refine ⟨k, soon, unstopped_iff.mpr goes, ?_⟩
    rw [← machine_iterate_step] at stops
    exact stops

/-- A program that makes a branch of a STOP and takes it, takes another one when its result is zero,
and then raises the second flag, so that it goes past its last branch. -/
example :
    let image : List UInt8 := [0x27, 0x42, 0x00, 0x00, 0x87, 0xe8, 0x00, 0xa4, 0x87, 0xe0]
    let p : Process := Submission.process ⟨0, .low, 99, "p", image⟩ 0
    p.branches 8 = [.positive, .zero] ∧ (step^[6] p).machine.Locked ∧
      (step^[7] p).upcoming.instruction = .stop := by
  decide

end Process

end Timeshare
