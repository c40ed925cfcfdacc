import Mathlib
import Timeshare.Proofs.Scheduler.History

/-!
# Where processes stand

Every live process stands in exactly one place, and its state says which: the admission queue, the
ready queue or the processor. The queues may also hold identifiers of processes that are gone, but
never the same identifier twice, and the processor never holds one. `Placed` is this invariant;
`placed_of_run` says that it holds after any requests.
-/

namespace Timeshare

namespace Scheduler

/-- The identifiers in the place that goes with a state. -/
def place (s : Scheduler) : ProcessState → List ProcessId
  | .new => s.admission.ids
  | .ready => s.ready.ids
  | .running => s.running.toList

/-- The identifiers in all places. -/
def queued (s : Scheduler) : List ProcessId :=
  s.admission.ids ++ s.ready.ids ++ s.running.toList

/-- Places, the table and the states of the processes in it agree. -/
structure Placed (s : Scheduler) : Prop where
  /-- No identifier stands in two places, or twice in one. -/
  nodup : s.queued.Nodup
  /-- Every identifier in a place has been handed out. -/
  issued : ∀ id ∈ s.queued, id < s.table.nextId
  /-- A slot holds the process of its number, and that one is not dead. -/
  filed : ∀ id p, s.table.get? id = some p → p.id = id ∧ p.dead = false
  /-- The state of a process says in which place it stands. -/
  state_iff : ∀ id p, s.table.get? id = some p → ∀ state, p.state = state ↔ id ∈ s.place state
  /-- The processor is not held by a process that is gone. -/
  occupied : ∀ id ∈ s.place .running, ∃ p, s.table.get? id = some p
  /-- No more identifiers are handed out than there are slots. -/
  capacity : s.table.nextId ≤ s.config.maxProcesses

section

variable {s t : Scheduler} {id : ProcessId} {p : Process}

theorem mem_queued : id ∈ s.queued ↔ ∃ state, id ∈ s.place state := by
  simp only [queued, List.mem_append]
  constructor
  · rintro ((h | h) | h)
    · exact ⟨.new, h⟩
    · exact ⟨.ready, h⟩
    · exact ⟨.running, h⟩
  · rintro ⟨state, h⟩
    cases state with
    | new => exact .inl (.inl h)
    | ready => exact .inl (.inr h)
    | running => exact .inr h

/-- An identifier stands in one place only. -/
theorem place_unique (h : s.queued.Nodup) {a b : ProcessState} (ha : id ∈ s.place a)
    (hb : id ∈ s.place b) : a = b := by
  rw [queued, List.nodup_append', List.nodup_append'] at h
  obtain ⟨⟨-, -, new_ready⟩, -, waiting_running⟩ := h
  rw [List.disjoint_append_left] at waiting_running
  obtain ⟨new_running, ready_running⟩ := waiting_running
  cases a <;> cases b
  case new.ready => exact absurd hb (new_ready ha)
  case ready.new => exact absurd ha (new_ready hb)
  case new.running => exact absurd hb (new_running ha)
  case running.new => exact absurd ha (new_running hb)
  case ready.running => exact absurd hb (ready_running ha)
  case running.ready => exact absurd ha (ready_running hb)
  all_goals rfl

namespace Placed

theorem isLive_iff (h : s.Placed) : s.table.isLive id = true ↔ ∃ p, s.table.get? id = some p := by
  rw [Table.isLive_iff]
  exact ⟨fun ⟨p, hp, _⟩ => ⟨p, hp⟩, fun ⟨p, hp⟩ => ⟨p, hp, (h.filed id p hp).2⟩⟩

theorem isLive_eq_false_iff (h : s.Placed) :
    s.table.isLive id = false ↔ s.table.get? id = none := by
  rw [← Bool.not_eq_true, h.isLive_iff, Option.eq_none_iff_forall_ne_some]
  exact not_exists

/-- A process that is alive stands in the place that its state names. -/
theorem mem_place (h : s.Placed) (found : s.table.get? id = some p) : id ∈ s.place p.state :=
  (h.state_iff id p found p.state).mp rfl

/-! ## What keeps it -/

/-- A process goes from one place to another one, which its state names from then on. -/
theorem relocate (h : s.Placed) (target : ProcessState)
    (table : t.table = s.table.update id fun p => { p with state := target })
    (config : t.config = s.config) (perm : t.queued.Perm s.queued)
    (arrives : id ∈ t.place target)
    (others : ∀ other, other ≠ id → ∀ state, other ∈ t.place state ↔ other ∈ s.place state)
    (live : ∃ p, s.table.get? id = some p) : t.Placed := by
  have nodup : t.queued.Nodup := perm.nodup_iff.mpr h.nodup
  obtain ⟨p, found⟩ := live
  have lookup : ∀ other q, t.table.get? other = some q →
      other = id ∧ q = { p with state := target } ∨ other ≠ id ∧ s.table.get? other = some q := by
    intro other q hq
    rw [table, Table.get?_update] at hq
    split at hq
    case isTrue heq =>
      rw [found] at hq
      exact .inl ⟨heq, (Option.some.inj hq).symm⟩
    case isFalse hne => exact .inr ⟨hne, hq⟩
  constructor
  case nodup => exact nodup
  case issued =>
    intro other hother
    rw [table, Table.nextId_update]
    exact h.issued other (perm.mem_iff.mp hother)
  case filed =>
    intro other q hq
    rcases lookup other q hq with ⟨rfl, rfl⟩ | ⟨-, hq⟩
    · exact h.filed other p found
    · exact h.filed other q hq
  case state_iff =>
    intro other q hq state
    rcases lookup other q hq with ⟨rfl, rfl⟩ | ⟨hne, hq⟩
    · constructor
      · rintro rfl
        exact arrives
      · intro hmem
        exact place_unique nodup arrives hmem
    · rw [others other hne]
      exact h.state_iff other q hq state
  case occupied =>
    intro other hother
    rw [table, Table.get?_update]
    split
    · exact ⟨_, by rw [found]; rfl⟩
    case isFalse hne => exact h.occupied other ((others other hne _).mp hother)
  case capacity =>
    rw [table, config, Table.nextId_update]
    exact h.capacity

/-- Identifiers disappear from the places, and processes from the table. -/
theorem shrink (h : s.Placed) (sublist : t.queued.Sublist s.queued)
    (config : t.config = s.config) (nextId : t.table.nextId = s.table.nextId)
    (lookup : ∀ other q, t.table.get? other = some q → s.table.get? other = some q)
    (others : ∀ other q, t.table.get? other = some q →
      ∀ state, other ∈ t.place state ↔ other ∈ s.place state)
    (occupied : ∀ other ∈ t.place .running, ∃ q, t.table.get? other = some q) : t.Placed := by
  constructor
  case nodup => exact h.nodup.sublist sublist
  case issued =>
    intro other hother
    rw [nextId]
    exact h.issued other (sublist.subset hother)
  case filed =>
    intro other q hq
    exact h.filed other q (lookup other q hq)
  case state_iff =>
    intro other q hq state
    rw [others other q hq]
    exact h.state_iff other q (lookup other q hq) state
  case occupied => exact occupied
  case capacity =>
    rw [nextId, config]
    exact h.capacity

/-- The process of a slot runs on. -/
theorem advance (h : s.Placed) (found : s.table.get? id = some p) :
    (s.advance id p.step).Placed := by
  have lookup : ∀ other q, (s.advance id p.step).table.get? other = some q →
      other = id ∧ q = p.step ∨ s.table.get? other = some q := by
    intro other q hq
    rw [get?_advance p.step found] at hq
    split at hq
    case isTrue heq => exact .inl ⟨heq, (Option.some.inj hq).symm⟩
    case isFalse => exact .inr hq
  constructor
  case nodup => exact h.nodup
  case issued =>
    intro other hother
    rw [Scheduler.advance, Table.nextId_update]
    exact h.issued other hother
  case filed =>
    intro other q hq
    rcases lookup other q hq with ⟨rfl, rfl⟩ | hq
    · exact h.filed other p found
    · exact h.filed other q hq
  case state_iff =>
    intro other q hq state
    rcases lookup other q hq with ⟨rfl, rfl⟩ | hq
    · exact h.state_iff other p found state
    · exact h.state_iff other q hq state
  case occupied =>
    intro other hother
    rw [get?_advance p.step found]
    split
    · exact ⟨_, rfl⟩
    · exact h.occupied other hother
  case capacity =>
    rw [Scheduler.advance, Table.nextId_update]
    exact h.capacity

/-- A process is gone; its identifier stays where it waits. -/
theorem without (h : s.Placed) (found : s.table.get? id = some p) : (s.without p).Placed := by
  obtain ⟨rfl, -⟩ := h.filed id p found
  have lookup : ∀ other q, (s.without p).table.get? other = some q →
      other ≠ p.id ∧ s.table.get? other = some q := by
    intro other q hq
    rw [Scheduler.without, Table.get?_remove] at hq
    split at hq
    · cases hq
    case isFalse hne => exact ⟨hne, hq⟩
  have running : ∀ other, other ∈ (s.without p).place .running ↔
      other ≠ p.id ∧ other ∈ s.place .running := by
    intro other
    simp only [place, Scheduler.without, Option.mem_toList]
    split <;> grind
  apply h.shrink
  case sublist =>
    simp only [queued, Scheduler.without]
    split
    · exact (List.Sublist.refl _).append (List.nil_sublist _)
    · exact List.Sublist.refl _
  case config => rfl
  case nextId => exact Table.nextId_remove _ _
  case lookup => exact fun other q hq => (lookup other q hq).2
  case others =>
    intro other q hq state
    cases state with
    | new => rfl
    | ready => rfl
    | running => exact (running other).trans (and_iff_right (lookup other q hq).1)
  case occupied =>
    intro other hother
    obtain ⟨hne, hmem⟩ := (running other).mp hother
    obtain ⟨q, hq⟩ := h.occupied other hmem
    exact ⟨q, by rw [Scheduler.without, Table.get?_remove, if_neg hne, hq]⟩

theorem ne_of_gone {other : ProcessId} {q : Process} (h : s.Placed)
    (gone : s.table.isLive id = false) (found : s.table.get? other = some q) : other ≠ id := by
  rintro rfl
  rw [h.isLive_eq_false_iff, found] at gone
  cases gone

/-- A new process joins those that wait for admission. -/
theorem create (h : s.Placed) (room : s.isFull = false) (submission : Submission) :
    (s.create submission).Placed := by
  have fresh : s.table.nextId ∉ s.queued := fun hmem => (h.issued _ hmem).false
  have perm : (s.create submission).queued.Perm (s.table.nextId :: s.queued) := by
    simp only [queued, Scheduler.create, Queue.ids_enqueue, List.append_assoc]
    exact List.perm_middle
  have lookup : ∀ other q, (s.create submission).table.get? other = some q →
      other = s.table.nextId ∧ q = submission.process s.table.nextId ∨
        other ≠ s.table.nextId ∧ s.table.get? other = some q := by
    intro other q hq
    rw [Scheduler.create, Table.get?_insert] at hq
    split at hq
    case isTrue heq => exact .inl ⟨heq, (Option.some.inj hq).symm⟩
    case isFalse hne => exact .inr ⟨hne, hq⟩
  have others : ∀ other, other ≠ s.table.nextId →
      ∀ state, other ∈ (s.create submission).place state ↔ other ∈ s.place state := by
    intro other hne state
    cases state with
    | new => simp [place, Scheduler.create, hne]
    | ready => rfl
    | running => rfl
  have nodup : (s.create submission).queued.Nodup :=
    perm.nodup_iff.mpr (List.nodup_cons.mpr ⟨fresh, h.nodup⟩)
  have arrives : s.table.nextId ∈ (s.create submission).place .new :=
    List.mem_append_right _ (List.mem_singleton_self _)
  constructor
  case nodup => exact nodup
  case issued =>
    intro other hother
    rw [Scheduler.create, Table.nextId_insert]
    rcases List.mem_cons.mp (perm.mem_iff.mp hother) with rfl | hmem
    · exact Nat.lt_succ_self _
    · exact Nat.lt_succ_of_lt (h.issued other hmem)
  case filed =>
    intro other q hq
    rcases lookup other q hq with ⟨rfl, rfl⟩ | ⟨-, hq⟩
    · exact ⟨rfl, rfl⟩
    · exact h.filed other q hq
  case state_iff =>
    intro other q hq state
    rcases lookup other q hq with ⟨rfl, rfl⟩ | ⟨hne, hq⟩
    · constructor
      · rintro rfl
        exact arrives
      · exact fun hmem => place_unique nodup arrives hmem
    · rw [others other hne]
      exact h.state_iff other q hq state
  case occupied =>
    intro other hother
    obtain ⟨q, hq⟩ := h.occupied other hother
    refine ⟨q, ?_⟩
    rw [Scheduler.create, Table.get?_insert, if_neg (Table.lt_nextId_of_get? hq).ne, hq]
  case capacity =>
    rw [Scheduler.create, Table.nextId_insert]
    simpa [isFull] using room

end Placed

theorem placed_init (config : Config) : (init config).Placed where
  nodup := List.nodup_nil
  issued := fun _ hmem => absurd hmem List.not_mem_nil
  filed := fun _ _ hp => by cases hp
  state_iff := fun _ _ hp => by cases hp
  occupied := fun _ hmem => absurd hmem List.not_mem_nil
  capacity := Nat.zero_le _

/-- Every move keeps places, table and states in agreement. -/
theorem Move.placed {es : List Event} (move : Move s es t) (h : s.Placed) : t.Placed := by
  cases move with
  | @discard id rest head gone =>
    have others : ∀ other, other ≠ id → (other ∈ rest ↔ other ∈ s.admission.ids) := by
      intro other hne
      rw [head, List.mem_cons, or_iff_right hne]
    apply h.shrink
    case sublist =>
      simp only [queued, head, List.cons_append]
      exact List.sublist_cons_self _ _
    case config => rfl
    case nextId => rfl
    case lookup => exact fun _ _ hq => hq
    case others =>
      intro other q hq state
      cases state with
      | new => exact others other (h.ne_of_gone gone hq)
      | ready => rfl
      | running => rfl
    case occupied => exact h.occupied
  | @promote id rest head live =>
    apply h.relocate .ready
    case table => rfl
    case config => rfl
    case perm =>
      have middle : (rest ++ s.ready.ids ++ id :: s.running.toList).Perm
          (id :: (rest ++ s.ready.ids ++ s.running.toList)) := List.perm_middle
      simpa [queued, makeReady, head] using middle
    case arrives => exact List.mem_append_right _ (List.mem_singleton_self _)
    case others =>
      intro other hne state
      cases state with
      | new => simp [place, makeReady, head, hne]
      | ready => simp [place, makeReady, hne]
      | running => rfl
    case live => exact h.isLive_iff.mp live
  | @skip id rest head gone =>
    have others : ∀ other, other ≠ id → (other ∈ rest ↔ other ∈ s.ready.ids) := by
      intro other hne
      rw [head, List.mem_cons, or_iff_right hne]
    apply h.shrink
    case sublist =>
      simp only [queued, head]
      exact ((List.Sublist.refl _).append (List.sublist_cons_self _ _)).append (.refl _)
    case config => rfl
    case nextId => rfl
    case lookup => exact fun _ _ hq => hq
    case others =>
      intro other q hq state
      cases state with
      | new => rfl
      | ready => exact others other (h.ne_of_gone gone hq)
      | running => rfl
    case occupied => exact h.occupied
  | @dispatch id rest free head live =>
    apply h.relocate .running
    case table => rfl
    case config => rfl
    case perm =>
      have last := (List.perm_append_singleton id rest).append_left s.admission.ids
      simpa [queued, seat, head, free] using last
    case arrives => exact List.mem_singleton_self _
    case others =>
      intro other hne state
      cases state with
      | new => rfl
      | ready => simp [place, seat, head, hne]
      | running => simp [place, seat, free, hne]
    case live => exact h.isLive_iff.mp live
  | execute running found goes => exact h.advance found
  | @finish id p ending running found ends =>
    obtain ⟨rfl, -⟩ := h.filed id p found
    have stepped := h.advance found
    exact stepped.without (get?_advance_self p.step found)
  | @requeue id running =>
    apply h.relocate .ready
    case table => rfl
    case config => rfl
    case perm => simp [queued, makeReady, running]
    case arrives => exact List.mem_append_right _ (List.mem_singleton_self _)
    case others =>
      intro other hne state
      cases state with
      | new => rfl
      | ready => simp [place, makeReady, hne]
      | running => simpa [place, makeReady, running] using hne
    case live => exact h.occupied id (by simp [place, running])

theorem Moves.placed {es : List Event} (moves : Moves s es t) (h : s.Placed) : t.Placed := by
  induction moves with
  | nil => exact h
  | cons first _ ih => exact ih (first.placed h)

theorem Answer.placed {request : Request} {reply : Reply} (answer : Answer s request reply t)
    (h : s.Placed) : t.Placed := by
  cases answer with
  | refuse => exact h
  | create submission room => exact h.create room submission
  | kill found => exact h.without found

/-- The invariant holds at every point of a history. -/
theorem History.placed {config : Config} {granted : List Submission} {events : List Event}
    (h : History config granted events s) : s.Placed := by
  induction h with
  | start => exact placed_init config
  | refuse _ _ ih => exact ih
  | create submission _ room ih => exact ih.create room submission
  | kill _ found ih => exact ih.without found
  | move _ move ih => exact move.placed ih

/-- After any requests, places, table and states agree: every process that is alive stands in a
place, the processor is held by one that is alive if it is held at all, and at most one process is
in the running state. -/
theorem placed_of_run {config : Config} {granted : List Submission} {events : List Event}
    (run : Run config granted events s) :
    s.Placed ∧ (∀ id p, s.table.get? id = some p → id ∈ s.queued) ∧
      (∀ id, s.running = some id → s.table.isLive id = true) ∧
      ∀ p ∈ s.processes, ∀ q ∈ s.processes, p.state = .running → q.state = .running → p = q := by
  have placed := run.history.placed
  refine ⟨placed, ?_, ?_, ?_⟩
  · intro id p found
    exact mem_queued.mpr ⟨p.state, placed.mem_place found⟩
  · intro id running
    exact placed.isLive_iff.mpr (placed.occupied id (by simp [place, running]))
  · intro p hp q hq p_runs q_runs
    obtain ⟨i, hi⟩ := Table.mem_processes.mp hp
    obtain ⟨j, hj⟩ := Table.mem_processes.mp hq
    have at_i : s.running = some i := by
      simpa [place] using (placed.state_iff i p hi .running).mp p_runs
    have at_j : s.running = some j := by
      simpa [place] using (placed.state_iff j q hj .running).mp q_runs
    obtain rfl : i = j := Option.some.inj (at_i.symm.trans at_j)
    exact Option.some.inj (hi.symm.trans hj)

/-- A program that never ends: the word at address zero branches to address zero. -/
def loopImage : List UInt8 := [0xa0]

/-- Four loops under a limit of two ready processes: one runs, one waits behind another one that was
killed, and one is new. -/
theorem placed_with_gone :
    ∃ granted events s, Run { slice := 1, maxReady := 2 } granted events s ∧
      s.admission.ids = [3] ∧ s.ready.ids = [2, 1] ∧ s.running = some 0 ∧
      s.table.isLive 2 = false ∧
      s.Placed ∧ (∀ id p, s.table.get? id = some p → id ∈ s.queued) ∧
      (∀ id, s.running = some id → s.table.isLive id = true) ∧
      ∀ p ∈ s.processes, ∀ q ∈ s.processes, p.state = .running → q.state = .running → p = q := by
  let load : String → Except Fault (List UInt8) := fun _ => .error .notFound
  let submit : Request := .submitImage ⟨1, .normal, 9, "loop", loopImage⟩
  have fresh : Run { slice := 1, maxReady := 2 } [] [] (init { slice := 1, maxReady := 2 }) :=
    .start
  have two := (fresh.serve load submit rfl).serve load submit rfl
  have created := (two.serve load submit rfl).serve load submit rfl
  have ticked := ((created.serve load .tick rfl).serve load .tick rfl).serve load .tick rfl
  have run := ticked.serve load (.kill 2) rfl
  exact ⟨_, _, _, run, by decide, by decide, by decide, by decide, placed_of_run run⟩

end

end Scheduler

end Timeshare
