import Mathlib
import Timeshare.Proofs.Scheduler.Accounting

/-!
# Finding processes

A process can be asked for by any integer, by an identifier, or in the list of all, and it can be
asked to be killed. These ways agree since a slot holds the process of its number: who is looked up
is who is listed under that integer (`Placed.lookup_eq_ok_iff`). The list goes through the slots in
order (`Table.pairwise_processes`), so everybody stands in it once, and who is killed leaves it, with
no other change to it (`Table.processes_split`). `coherent_of_run` puts this together.
-/

namespace Timeshare

namespace Table

variable {t : Table} {id : ProcessId} {p : Process}

/-- If every slot holds the process of its number, processes are listed by identifier. -/
theorem pairwise_processes (filed : ∀ id p, t.get? id = some p → p.id = id) :
    t.processes.Pairwise fun p q => p.id < q.id := by
  rw [processes, List.pairwise_filterMap, List.pairwise_iff_getElem]
  intro i j hi hj earlier p first q later
  have at_i : t.get? i = some p := by simpa [get?, hi] using first
  have at_j : t.get? j = some q := by simpa [get?, hj] using later
  rwa [filed i p at_i, filed j q at_j]

/-- A process that is removed leaves the list, and nothing else in the list changes. -/
theorem processes_split (found : t.get? id = some p) :
    ∃ pre post, t.processes = pre ++ p :: post ∧ (t.remove id).processes = pre ++ post := by
  obtain ⟨pre, post, slots, removed, -⟩ := slots_split found
  refine ⟨(Table.mk pre).processes, (Table.mk post).processes, ?_, ?_⟩
  · simp [processes, slots]
  · simp [processes, removed]

end Table

namespace Scheduler

variable {config : Config} {granted : List Submission} {events : List Event} {s : Scheduler}
  {id : ProcessId} {n : Int} {p : Process}

/-- What is listed of the processes. -/
def statuses (s : Scheduler) : List Status := s.processes.map Process.status

theorem filter_statuses (s : Scheduler) (select : ProcessId → Bool) :
    (s.statuses.filter fun status => select status.id) =
      (s.processes.filter fun p => select p.id).map Process.status :=
  List.filter_map

/-- A lookup that finds nobody says whom it was to find. -/
theorem lookup_eq_error (nobody : ∀ p, s.lookup n ≠ .ok p) :
    s.lookup n = .error (.unknownProcess n) := by
  unfold lookup at nobody ⊢
  split at nobody
  · rw [if_pos ‹_›]
  · rw [if_neg ‹_›]
    cases found : s.process? n.toNat with
    | none => rfl
    | some p => exact absurd (by rw [found]) (nobody p)

/-- So does a request to kill nobody, and it does nothing else. -/
theorem kill_eq_error (nobody : ∀ p, s.lookup n ≠ .ok p) :
    s.kill n = ⟨(.error (.unknownProcess n), s), []⟩ :=
  kill_of_error (lookup_eq_error nobody)

theorem kill_eq_ok_iff : (s.kill n).value.1 = .ok () ↔ ∃ p, s.lookup n = .ok p := by
  cases found : s.lookup n with
  | error refusal => simp [kill_of_error found]
  | ok p => simp [kill_of_ok found]

theorem reply?_kill_eq_done_iff {load : String → Except Fault (List UInt8)} :
    s.reply? load (.kill n) = some .done ↔ (s.kill n).value.1 = .ok () := by
  simp only [reply?, perform, Option.map_some, Traced.value_bind, Traced.value_pure,
    Option.some.injEq]
  generalize (s.kill n).value.1 = result
  cases result <;> simp [Reply.ofKill]

/-- As long as identifiers have room in 32 bits, an integer that has none there finds nobody. -/
theorem exists_lookup_iff (room : s.table.nextId ≤ 2 ^ 32) :
    (∃ p, s.lookup n = .ok p) ↔ 0 ≤ n ∧ n < 2 ^ 32 ∧ ∃ p, s.process? n.toNat = some p := by
  simp only [lookup_eq_ok_iff]
  constructor
  · rintro ⟨p, positive, found⟩
    have below := (Table.lt_nextId_of_get? found).trans_le room
    exact ⟨positive, mod_cast (Int.toNat_lt positive).mp below, p, found⟩
  · rintro ⟨positive, -, p, found⟩
    exact ⟨p, positive, found⟩

/-! ## The list -/

namespace Placed

theorem mem_processes_iff (h : s.Placed) : p ∈ s.processes ↔ s.table.get? p.id = some p := by
  rw [Scheduler.processes, Table.mem_processes]
  constructor
  · rintro ⟨id, found⟩
    rwa [(h.filed id p found).1]
  · exact fun found => ⟨p.id, found⟩

/-- Who is looked up is who is listed under that integer. -/
theorem lookup_eq_ok_iff (h : s.Placed) :
    s.lookup n = .ok p ↔ p ∈ s.processes ∧ (p.id : Int) = n := by
  rw [Scheduler.lookup_eq_ok_iff, h.mem_processes_iff]
  constructor
  · rintro ⟨positive, found⟩
    obtain ⟨own, -⟩ := h.filed _ p found
    rw [own]
    exact ⟨found, Int.toNat_of_nonneg positive⟩
  · rintro ⟨found, rfl⟩
    exact ⟨Int.natCast_nonneg _, found⟩

theorem sorted (h : s.Placed) : s.processes.Pairwise fun p q => p.id < q.id :=
  Table.pairwise_processes fun id p found => (h.filed id p found).1

/-- Everybody else is listed before or behind a process, and stays so when that one is gone. -/
theorem exists_split (h : s.Placed) (listed : p ∈ s.processes) :
    ∃ pre post, s.processes = pre ++ p :: post ∧ (s.without p).processes = pre ++ post ∧
      ∀ q ∈ pre ++ post, q.id ≠ p.id := by
  obtain ⟨pre, post, split, removed⟩ := Table.processes_split (h.mem_processes_iff.mp listed)
  refine ⟨pre, post, split, removed, fun q hq => ?_⟩
  have sorted := h.sorted
  rw [Scheduler.processes, split, List.pairwise_append] at sorted
  obtain ⟨-, later, below⟩ := sorted
  rcases List.mem_append.mp hq with before | behind
  · exact (below q before p List.mem_cons_self).ne
  · exact ((List.pairwise_cons.mp later).1 q behind).ne'

/-- A process is listed once. -/
theorem filter_id_eq (h : s.Placed) (listed : p ∈ s.processes) :
    (s.processes.filter fun q => q.id = p.id) = [p] := by
  obtain ⟨pre, post, split, -, others⟩ := h.exists_split listed
  obtain ⟨before, behind⟩ := List.forall_mem_append.mp others
  rw [split, List.filter_append, List.filter_cons_of_pos (by simp),
    List.filter_eq_nil_iff.mpr (by simpa using before),
    List.filter_eq_nil_iff.mpr (by simpa using behind), List.nil_append]

/-- Without a process the list is the one of the others. -/
theorem processes_without (h : s.Placed) (listed : p ∈ s.processes) :
    (s.without p).processes = s.processes.filter fun q => q.id ≠ p.id := by
  obtain ⟨pre, post, split, removed, others⟩ := h.exists_split listed
  obtain ⟨before, behind⟩ := List.forall_mem_append.mp others
  rw [split, removed, List.filter_append, List.filter_cons_of_neg (by simp),
    List.filter_eq_self.mpr (by simpa using before),
    List.filter_eq_self.mpr (by simpa using behind)]

end Placed

/-! ## The whole of it -/

/-- All ways to ask for a process agree, whatever the integer. -/
structure Coherent (s : Scheduler) : Prop where
  /-- Looking up, killing, going through the list and asking by an identifier of 32 bits succeed for
  the same integers. -/
  found : ∀ load (n : Int), [
    ∃ p, s.lookup n = .ok p,
    (s.kill n).value.1 = .ok (),
    s.reply? load (.kill n) = some .done,
    ∃ status ∈ s.statuses, (status.id : Int) = n,
    0 ≤ n ∧ n < 2 ^ 32 ∧ ∃ p, s.process? n.toNat = some p].TFAE
  /-- They find the same process, and the list has it once. -/
  same : ∀ n p, s.lookup n = .ok p → s.process? n.toNat = some p ∧
    (s.statuses.filter fun status => (status.id : Int) = n) = [p.status]
  /-- Else nothing is done, and the refusal carries that integer. -/
  unknown : ∀ n, (∀ p, s.lookup n ≠ .ok p) → s.lookup n = .error (.unknownProcess n) ∧
    s.kill n = ⟨(.error (.unknownProcess n), s), []⟩
  sorted : s.statuses.Pairwise fun a b => a.id < b.id
  count : s.statuses.length = s.processCount
  /-- Who is killed leaves the list, with no other change to it, and cannot be killed again. -/
  killed : ∀ n p t, s.lookup n = .ok p → (s.kill n).value.2 = t →
    t.statuses = (s.statuses.filter fun status => (status.id : Int) ≠ n) ∧
      t.kill n = ⟨(.error (.unknownProcess n), t), []⟩

/-- After any requests all ways to ask for a process agree. -/
theorem coherent_of_run (run : Run config granted events s) (small : config.maxProcesses < 2 ^ 32) :
    s.Coherent := by
  have placed := run.history.placed
  have capacity := placed.capacity
  rw [run.history.config_eq] at capacity
  constructor
  case found =>
    intro load n
    tfae_have 2 ↔ 1 := kill_eq_ok_iff
    tfae_have 3 ↔ 2 := reply?_kill_eq_done_iff
    tfae_have 1 ↔ 4 := by
      simp [placed.lookup_eq_ok_iff, statuses, Process.status]
    tfae_have 1 ↔ 5 := exists_lookup_iff (capacity.trans small.le)
    tfae_finish
  case same =>
    intro n p found
    obtain ⟨listed, rfl⟩ := placed.lookup_eq_ok_iff.mp found
    refine ⟨(lookup_eq_ok_iff.mp found).2, ?_⟩
    simp only [Nat.cast_inj]
    rw [s.filter_statuses (· = p.id), placed.filter_id_eq listed, List.map_singleton]
  case unknown => exact fun n nobody => ⟨lookup_eq_error nobody, kill_eq_error nobody⟩
  case sorted => exact List.pairwise_map.mpr placed.sorted
  case count => exact List.length_map _
  case killed =>
    rintro n p _ found rfl
    obtain ⟨listed, rfl⟩ := placed.lookup_eq_ok_iff.mp found
    rw [kill_of_ok found]
    constructor
    · simp only [statuses, ne_eq, Nat.cast_inj]
      rw [placed.processes_without listed]
      exact (s.filter_statuses (· ≠ p.id)).symm
    · refine kill_eq_error fun q again => ?_
      have later := placed.without (placed.mem_processes_iff.mp listed)
      obtain ⟨left, same⟩ := later.lookup_eq_ok_iff.mp again
      rw [placed.processes_without listed, List.mem_filter] at left
      exact of_decide_eq_true left.2 (Int.ofNat.inj same)

/-- One process has stopped, one was killed before it ran, and one is left. -/
theorem coherent_with_endings :
    ∃ granted events s, Run { slice := 1, maxProcesses := 3 } granted events s ∧ 3 < 2 ^ 32 ∧
      s.statuses.map Status.id = [2] ∧ s.table.nextId = 3 ∧ s.Coherent := by
  let load : String → Except Fault (List UInt8) := fun _ => .error .notFound
  let loop : Request := .submitImage ⟨1, .normal, 9, "loop", loopImage⟩
  have fresh : Run { slice := 1, maxProcesses := 3 } [] []
      (init { slice := 1, maxProcesses := 3 }) := .start
  have first := fresh.serve load (.submitImage ⟨1, .low, 0, "stop", []⟩) rfl
  have created := (first.serve load loop rfl).serve load loop rfl
  have run := (created.serve load .tick rfl).serve load (.kill 1) rfl
  exact ⟨_, _, _, run, by decide, by decide, by decide, coherent_of_run run (by decide)⟩

end Scheduler

end Timeshare
