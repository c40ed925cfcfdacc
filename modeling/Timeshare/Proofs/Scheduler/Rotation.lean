import Mathlib
import Timeshare.Proofs.Scheduler.Work

/-!
# The rotation

Seen from outside a scheduler is a round of processes that take turns and a line of those that wait
to join it. Identifiers of processes that are gone do not show in either; they only take up room in
the ready queue. `Rotation` has the round and the line by themselves, with what may happen to them,
and `Scheduler.rotation` finds them in a scheduler. `rotation_tick` says that a tick is an admission
and a turn of the round, `rotation_create` and `rotation_without` say what creations and endings do.
-/

namespace Timeshare

/-- A round of processes that take turns, the next one first, and a line of those that wait to join
it. -/
structure Rotation where
  turns : List ProcessId := []
  waiting : List ProcessId := []
  deriving DecidableEq, Repr

namespace Rotation

/-- Somebody new joins the end of the line. -/
def join (r : Rotation) (id : ProcessId) : Rotation := { r with waiting := r.waiting ++ [id] }

/-- Somebody leaves, wherever they stand. -/
def leave (r : Rotation) (id : ProcessId) : Rotation := ⟨r.turns.erase id, r.waiting.erase id⟩

/-- If there is room, the head of the line goes to the end of the round. -/
def enter (r : Rotation) (room : Bool) : Rotation :=
  match r.waiting with
  | [] => r
  | id :: rest => if room then ⟨r.turns ++ [id], rest⟩ else r

/-- The head of the round has its turn and goes to the end if it stays. -/
def turn (r : Rotation) (stays : ProcessId → Bool) : Rotation :=
  match r.turns with
  | [] => r
  | id :: rest => { r with turns := if stays id then rest ++ [id] else rest }

variable {r : Rotation} {id : ProcessId} {rest : List ProcessId} {stays : ProcessId → Bool}

theorem turn_of_cons (h : r.turns = id :: rest) :
    r.turn stays = { r with turns := if stays id then rest ++ [id] else rest } := by
  rw [turn, h]

/-- At most somebody more is in the round when somebody may enter. -/
theorem turns_enter (r : Rotation) (room : Bool) :
    ∃ entering, (r.enter room).turns = r.turns ++ entering := by
  unfold enter
  split
  · exact ⟨[], (List.append_nil _).symm⟩
  · cases room with
    | true => exact ⟨_, rfl⟩
    | false => exact ⟨[], (List.append_nil _).symm⟩

theorem turn_of_nil (h : r.turns = []) : r.turn stays = r := by
  rw [turn, h]

theorem leave_of_cons (h : r.turns = id :: rest) (nodup : (r.turns ++ r.waiting).Nodup) :
    r.leave id = { r with turns := rest } := by
  have absent : id ∉ r.waiting := fun waits =>
    (List.nodup_append'.mp nodup).2.2 (by rw [h]; exact List.mem_cons_self) waits
  rw [leave, h, List.erase_cons_head, List.erase_of_not_mem absent]

end Rotation

namespace Table

variable {t : Table} {id other : ProcessId} {p : Process}

theorem isLive_of_get? (h : t.get? id = some p) : t.isLive id = !p.dead := by
  rw [isLive, h]
  rfl

theorem isLive_insert (t : Table) (p : Process) (id : ProcessId) :
    (t.insert p).isLive id = if id = t.nextId then !p.dead else t.isLive id := by
  rw [isLive, get?_insert]
  split <;> rfl

theorem isLive_update_state_eq (t : Table) (id : ProcessId) (state : ProcessState) :
    (t.update id fun p => { p with state := state }).isLive = t.isLive :=
  funext fun other => isLive_update_state t id other state

theorem isLive_remove (t : Table) (id other : ProcessId) :
    (t.remove id).isLive other = (other != id && t.isLive other) := by
  rw [isLive, get?_remove]
  by_cases h : other = id
  · simp [h]
  · simp [h, isLive]

end Table

namespace Scheduler

variable {s t : Scheduler} {id : ProcessId} {p : Process}

/-- The running process and the ready ones in the order of their turns, and the line of those that
wait for admission. -/
def rotation (s : Scheduler) : Rotation where
  turns := s.running.toList ++ s.ready.ids.filter s.table.isLive
  waiting := s.admission.ids.filter s.table.isLive

/-- Whether a process can be admitted: everybody in the ready queue counts, also who is gone. -/
def hasRoom (s : Scheduler) : Bool := s.ready.length < s.config.maxReady

/-- Whether a process outlives its next slice. -/
def outlasts (s : Scheduler) (id : ProcessId) : Bool :=
  (s.table.get? id).any fun p => (p.slice s.config.slice).ending.isNone

/-- Nobody stands in the rotation twice. -/
theorem Placed.nodup_rotation (h : s.Placed) :
    (s.rotation.turns ++ s.rotation.waiting).Nodup := by
  have perm : (s.running.toList ++ s.ready.ids ++ s.admission.ids).Perm s.queued := by
    rw [queued, List.append_assoc s.admission.ids]
    exact (List.perm_append_comm.append_right _).trans List.perm_append_comm
  have sublist : (s.rotation.turns ++ s.rotation.waiting).Sublist
      (s.running.toList ++ s.ready.ids ++ s.admission.ids) :=
    ((List.Sublist.refl _).append List.filter_sublist).append List.filter_sublist
  exact (perm.nodup_iff.mpr h.nodup).sublist sublist

/-- Who stands in the rotation is who is alive. -/
theorem Placed.mem_rotation_iff (h : s.Placed) :
    id ∈ s.rotation.turns ++ s.rotation.waiting ↔ s.table.isLive id = true := by
  simp only [rotation, List.mem_append, List.mem_filter]
  constructor
  · rintro ((runs | ⟨-, live⟩) | ⟨-, live⟩)
    · exact h.isLive_iff.mpr (h.occupied id runs)
    · exact live
    · exact live
  · intro live
    obtain ⟨p, found⟩ := h.isLive_iff.mp live
    have stands := mem_queued.mpr ⟨p.state, h.mem_place found⟩
    simp only [queued, List.mem_append] at stands
    tauto

/-! ## Creations and endings -/

theorem rotation_create (h : s.Placed) (submission : Submission) :
    (s.create submission).rotation = s.rotation.join s.table.nextId := by
  have live :
      (s.table.insert (submission.process s.table.nextId)).isLive s.table.nextId = true := by
    rw [Table.isLive_insert, if_pos rfl]
    rfl
  -- The new identifier is not one that stands in a queue already.
  have others : ∀ ids : List ProcessId, ids ⊆ s.queued →
      ids.filter (s.table.insert (submission.process s.table.nextId)).isLive =
        ids.filter s.table.isLive := by
    intro ids subset
    refine List.filter_congr fun id hid => ?_
    rw [Table.isLive_insert, if_neg (h.issued id (subset hid)).ne]
  have ready := others s.ready.ids fun id hid => mem_queued.mpr ⟨.ready, hid⟩
  have admission := others s.admission.ids fun id hid => mem_queued.mpr ⟨.new, hid⟩
  simp only [rotation, Scheduler.create, Queue.ids_enqueue, List.filter_append, ready, admission,
    List.filter_singleton, live, Rotation.join]
  rfl

theorem rotation_without (h : s.Placed) (found : s.table.get? id = some p) :
    (s.without p).rotation = s.rotation.leave id := by
  obtain ⟨rfl, -⟩ := h.filed id p found
  obtain ⟨turns, waiting, -⟩ := List.nodup_append'.mp h.nodup_rotation
  have removed : ∀ ids : List ProcessId, ids.filter (s.table.remove p.id).isLive =
      (ids.filter s.table.isLive).filter (· != p.id) := by
    intro ids
    rw [List.filter_filter]
    exact List.filter_congr fun other _ => Table.isLive_remove _ _ _
  have running : (if s.running = some p.id then none else s.running).toList =
      s.running.toList.filter (· != p.id) := by
    cases s.running with
    | none => rfl
    | some other => by_cases same : other = p.id <;> simp [same]
  rw [Rotation.leave, turns.erase_eq_filter, waiting.erase_eq_filter]
  simp only [rotation, Scheduler.without, removed, running, List.filter_append]

/-! ## Admission and dispatch -/

theorem rotation_makeReady (s : Scheduler) (id : ProcessId) :
    (s.makeReady id).rotation =
      { s.rotation with turns := s.rotation.turns ++ [id].filter s.table.isLive } := by
  simp [rotation, makeReady, Table.isLive_update_state_eq]

/-- The head of the line is admitted if there is room. -/
theorem rotation_admitNext (s : Scheduler) :
    s.admitNext.value.rotation = s.rotation.enter s.hasRoom := by
  by_cases full : s.config.maxReady ≤ s.ready.length
  · have closed : s.hasRoom = false := decide_eq_false (Nat.not_lt_of_le full)
    rw [admitNext_of_full full, Rotation.enter, closed]
    cases s.rotation.waiting <;> rfl
  · have room := Nat.lt_of_not_le full
    have opened : s.hasRoom = true := decide_eq_true room
    rcases s.admission.gone_or_split s.table.isLive with dead | ⟨gone, id, rest, split, dead, live⟩
    · have waiting : s.admission.ids.filter s.table.isLive = [] := by
        simpa [List.filter_eq_nil_iff] using dead
      rw [admitNext_of_gone room dead, Rotation.enter]
      simp [rotation, waiting]
    · have before : gone.filter s.table.isLive = [] := by
        simpa [List.filter_eq_nil_iff] using dead
      have waiting : s.rotation.waiting = id :: rest.filter s.table.isLive := by
        simp [rotation, split, before, live]
      rw [admitNext_of_split room split dead live, rotation_makeReady, Rotation.enter, waiting,
        opened]
      simp [rotation, live]

/-- The free processor is given to the head of the round; nothing else changes. -/
theorem rotation_dispatch (free : s.running = none) :
    s.dispatch.value.rotation = s.rotation ∧
      s.dispatch.value.running = s.rotation.turns.head? := by
  rcases s.ready.gone_or_split s.table.isLive with dead | ⟨gone, id, rest, split, dead, live⟩
  · have ready : s.ready.ids.filter s.table.isLive = [] := by
      simpa [List.filter_eq_nil_iff] using dead
    rw [dispatch_of_gone dead]
    simp [rotation, ready, free]
  · have before : gone.filter s.table.isLive = [] := by
      simpa [List.filter_eq_nil_iff] using dead
    have ready : s.ready.ids.filter s.table.isLive = id :: rest.filter s.table.isLive := by
      simp [split, before, live]
    rw [dispatch_of_split split dead live]
    simp [rotation, seat, ready, free, Table.isLive_update_state_eq]

theorem rotation_seated (s : Scheduler) : s.seated.value.rotation = s.rotation.enter s.hasRoom := by
  cases running : s.running with
  | some id => rw [seated_of_running running, rotation_admitNext]
  | none =>
    have free : s.admitNext.value.running = none := (running_admitNext s).trans running
    rw [seated_of_free running, Traced.value_bind, (rotation_dispatch free).1, rotation_admitNext]

/-- A tick gives a slice to the head of the round as it is after the admission. -/
theorem turn?_eq_head? (s : Scheduler) : s.turn? = (s.rotation.enter s.hasRoom).turns.head? := by
  rw [← rotation_admitNext, turn?]
  cases running : s.running with
  | some id =>
    have busy : s.admitNext.value.running = some id := (running_admitNext s).trans running
    rw [seated_of_running running, rotation, busy]
    rfl
  | none =>
    have free : s.admitNext.value.running = none := (running_admitNext s).trans running
    rw [seated_of_free running, Traced.value_bind, (rotation_dispatch free).2]

/-! ## Slices -/

/-- A process is changed by its own instructions only, its state apart. -/
theorem Move.bare_eq {es : List Event} (move : Move s es t) (placed : s.Placed)
    (rests : Event.executions id es = 0) :
    (t.table.get? id).map Process.bare = (s.table.get? id).map Process.bare := by
  cases move with
  | discard => rfl
  | skip => rfl
  | promote => exact Table.map_bare_get?_update _ _ _ _
  | dispatch => exact Table.map_bare_get?_update _ _ _ _
  | requeue => exact Table.map_bare_get?_update _ _ _ _
  | @execute other p running found goes =>
    by_cases own : id = other
    · subst own
      rw [Event.executions_executed] at rests
      cases rests
    · rw [get?_advance p.step found, if_neg own]
  | @finish other p ending running found ends =>
    obtain ⟨rfl, -⟩ := placed.filed other p found
    by_cases own : id = p.id
    · subst own
      rw [Event.executions_executed] at rests
      cases rests
    · rw [table_without_advance s p.id p.step rfl, Table.get?_remove, if_neg own]

theorem Moves.bare_eq {es : List Event} (moves : Moves s es t) (placed : s.Placed)
    (rests : Event.executions id es = 0) :
    (t.table.get? id).map Process.bare = (s.table.get? id).map Process.bare := by
  induction moves with
  | nil => rfl
  | cons first _ ih =>
    rw [Event.executions_append, Nat.add_eq_zero_iff] at rests
    rw [ih (first.placed placed) rests.2, first.bare_eq placed rests.1]

theorem outlasts_of_get? (found : s.table.get? id = some p) :
    s.outlasts id = true ↔ p.Survives s.config.slice := by
  rw [outlasts, found, Option.any_some, Option.isNone_iff_eq_none,
    Process.slice_ending_eq_none_iff]

/-- The state of a process has no part in whether it outlives its slice. -/
theorem outlasts_eq_of_bare {q : Process} (config : t.config = s.config)
    (found : s.table.get? id = some p) (after : t.table.get? id = some q)
    (bare : q.bare = p.bare) : t.outlasts id = s.outlasts id := by
  rw [Bool.eq_iff_iff, outlasts_of_get? after, outlasts_of_get? found, config,
    ← Process.survives_bare, bare, Process.survives_bare]

theorem rotation_advance (found : s.table.get? id = some p) {q : Process} (dead : q.dead = p.dead) :
    (s.advance id q).rotation = s.rotation := by
  have same : (s.advance id q).table.isLive = s.table.isLive := by
    funext other
    rw [Table.isLive, Table.isLive, get?_advance q found]
    split
    case isTrue h => rw [h, found, Option.any_some, Option.any_some, dead]
    case isFalse => rfl
  simp only [rotation, same]
  rfl

/-- A change before the end leaves no trace. -/
theorem without_advance {q : Process} (same : q.id = p.id) :
    (s.advance p.id q).without q = s.without p := by
  rw [without, without, advance, same, Table.remove_update]

theorem rotation_requeue_of_running (running : s.running = some id)
    (live : s.table.isLive id = true) :
    s.requeue.value.rotation = { s.rotation with turns := s.rotation.turns.tail ++ [id] } := by
  have requeued : s.requeue.value = { s with running := none }.makeReady id := by
    rw [Scheduler.requeue, running]
    rfl
  rw [requeued, rotation_makeReady]
  simp [rotation, running, live]

theorem requeue_of_free (free : s.running = none) : s.requeue.value = s := by
  rw [Scheduler.requeue, free]
  rfl

/-- A slice and what follows turn the round by one. -/
theorem rotation_serve (h : s.Placed) (running : s.running = some id) :
    (s.serve id).value.rotation = s.rotation.turn s.outlasts := by
  obtain ⟨p, found⟩ := h.occupied id (by simp [place, running])
  obtain ⟨rfl, alive⟩ := h.filed id p found
  have turns : s.rotation.turns = p.id :: s.ready.ids.filter s.table.isLive := by
    rw [rotation, running]
    rfl
  rw [serve, Traced.value_bind, Traced.value_bind, (rotation_dispatch (running_requeue _)).1,
    Rotation.turn_of_cons turns]
  cases ending : (p.slice s.config.slice).ending with
  | none =>
    have survives := Process.slice_ending_eq_none_iff.mp ending
    have dead := Process.iterate_step_dead p s.config.slice
    have live : (s.advance p.id (Process.step^[s.config.slice] p)).table.isLive p.id = true := by
      rw [Table.isLive_of_get? (get?_advance_self _ found), dead, alive]
      rfl
    rw [runSlice_of_survives found survives, rotation_requeue_of_running (by exact running) live,
      rotation_advance found dead, turns, if_pos ((outlasts_of_get? found).mpr survives)]
    rfl
  | some last =>
    have dies : s.outlasts p.id = false := by
      rw [outlasts, found, Option.any_some, ending]
      rfl
    have freed : (s.without p).running = none := if_pos running
    rw [runSlice_of_ends found ending, without_advance (Process.slice_process_id _ p),
      requeue_of_free freed, rotation_without h found,
      Rotation.leave_of_cons turns h.nodup_rotation, dies]
    rfl

/-! ## Ticks -/

theorem outlasts_seated (h : s.Placed) (id : ProcessId) :
    s.seated.value.outlasts id = s.outlasts id := by
  have moves := moves_seated s
  have bare := moves.bare_eq h (executions_seated s id)
  cases found : s.table.get? id with
  | none =>
    rw [found, Option.map_none, Option.map_eq_none_iff] at bare
    rw [outlasts, outlasts, found, bare]
    rfl
  | some p =>
    rw [found, Option.map_some, Option.map_eq_some_iff] at bare
    obtain ⟨q, after, same⟩ := bare
    exact outlasts_eq_of_bare moves.config_eq found after same

/-- A tick is an admission, if there is room, and a turn of the round. -/
theorem rotation_tick (h : s.Placed) :
    s.tick.value.rotation = (s.rotation.enter s.hasRoom).turn s.outlasts := by
  have head := turn?_eq_head? s
  rw [← rotation_seated] at head ⊢
  cases turn : s.turn? with
  | none =>
    rw [turn, eq_comm, List.head?_eq_none_iff] at head
    rw [tick_eq_of_idle turn, Rotation.turn_of_nil head]
  | some id =>
    have same : s.outlasts = s.seated.value.outlasts := funext fun id => (outlasts_seated h id).symm
    rw [tick_eq_of_turn turn, same]
    exact rotation_serve ((moves_seated s).placed h) turn

/-- After a tick the processor is held by the head of the round. -/
theorem running_tick (s : Scheduler) :
    s.tick.value.running = s.tick.value.rotation.turns.head? := by
  cases turn : s.turn? with
  | none =>
    have head := turn?_eq_head? s
    rw [turn, ← rotation_seated] at head
    rw [tick_eq_of_idle turn, ← head]
    exact turn
  | some id =>
    rw [tick_eq_of_turn turn]
    change (s.seated.value.runSlice id).value.requeue.value.dispatch.value.running = _
    obtain ⟨same, head⟩ := rotation_dispatch (running_requeue (s.seated.value.runSlice id).value)
    rw [head, ← same]
    rfl

/-- What a tick does in which a process has a slice: its own instructions are carried out, and
nothing happens to the others but changes of state. -/
structure Slices (s : Scheduler) (id : ProcessId) (p : Process) : Prop where
  executions : ∀ other, Event.executions other s.tick.events =
    if other = id then (p.slice s.config.slice).executed.length else 0
  own : (s.tick.value.table.get? id).map Process.bare =
    if s.outlasts id then some (p.slice s.config.slice).process.bare else none
  others : ∀ other, other ≠ id →
    (s.tick.value.table.get? other).map Process.bare = (s.table.get? other).map Process.bare

/-- What a slice leaves of the process in the table. -/
theorem bare_runSlice (found : s.table.get? id = some p) (filed : p.id = id) :
    ((s.runSlice id).value.table.get? id).map Process.bare =
      if s.outlasts id then some (p.slice s.config.slice).process.bare else none := by
  cases ending : (p.slice s.config.slice).ending with
  | none =>
    have survives := Process.slice_ending_eq_none_iff.mp ending
    rw [runSlice_of_survives found survives, get?_advance_self _ found,
      if_pos ((outlasts_of_get? found).mpr survives), Process.slice_process_of_survives survives]
    rfl
  | some last =>
    have dies : ¬ s.outlasts id = true := by
      rw [outlasts_of_get? found, ← Process.slice_ending_eq_none_iff, ending]
      exact Option.some_ne_none last
    subst filed
    rw [runSlice_of_ends found ending, without_advance (Process.slice_process_id _ p), without,
      Table.get?_remove, if_pos rfl, if_neg dies]
    rfl

theorem slices_of_turn (h : s.Placed) (turn : s.turn? = some id) :
    ∃ p, s.table.get? id = some p ∧ s.Slices id p := by
  have before := moves_seated s
  have placed := before.placed h
  obtain ⟨q, seated⟩ := get?_of_turn h turn
  have bare := before.bare_eq h (executions_seated s id)
  rw [seated, Option.map_some, eq_comm, Option.map_eq_some_iff] at bare
  obtain ⟨p, found, same⟩ := bare
  -- What was seated differs from what was found in its state only.
  have slice : (q.slice s.config.slice).executed = (p.slice s.config.slice).executed ∧
      (q.slice s.config.slice).process.bare = (p.slice s.config.slice).process.bare := by
    have both := congrArg (Process.slice s.config.slice) same
    rw [Process.slice_bare, Process.slice_bare, Slice.mk.injEq] at both
    exact ⟨both.2.1.symm, both.1.symm⟩
  have counts : ∀ other, Event.executions other s.tick.events =
      if other = id then (p.slice s.config.slice).executed.length else 0 := by
    intro other
    rw [executions_tick_of_turn turn seated, before.config_eq, slice.1]
  refine ⟨p, found, counts, ?_, ?_⟩
  · have running : s.seated.value.running = some id := turn
    have served := (moves_runSlice running).placed placed
    have after := (moves_requeue (s.seated.value.runSlice id).value).trans
      (moves_dispatch _ (running_requeue _))
    have rests : Event.executions id ((s.seated.value.runSlice id).value.requeue.events ++
        (s.seated.value.runSlice id).value.requeue.value.dispatch.events) = 0 := by
      rw [Event.executions_append, executions_requeue, executions_dispatch]
    have left := after.bare_eq served rests
    rw [bare_runSlice seated (placed.filed id q seated).1, outlasts_seated h, before.config_eq,
      slice.2] at left
    rw [tick_eq_of_turn turn]
    exact left
  · intro other different
    exact (moves_tick s).bare_eq h (by rw [counts, if_neg different])

/-! ## The whole of it -/

/-- A scheduler behaves as its rotation does. -/
structure Rotates (s : Scheduler) : Prop where
  /-- Nobody stands in the round or the line twice. -/
  nodup : (s.rotation.turns ++ s.rotation.waiting).Nodup
  /-- Who stands there is who is alive. -/
  mem_iff : ∀ id, id ∈ s.rotation.turns ++ s.rotation.waiting ↔ s.table.isLive id = true
  /-- A new process joins the line. -/
  created : ∀ load request t id, s.perform load request = some t → t.value.1 = .created id →
    id = s.table.nextId ∧ t.value.2.rotation = s.rotation.join id
  /-- A process that is killed leaves; it stood in the round or in the line. -/
  killed : ∀ load id t, s.perform load (.kill id) = some t → t.value.1 = .done →
    ∃ victim : ProcessId, id = victim ∧ victim ∈ s.rotation.turns ++ s.rotation.waiting ∧
      t.value.2.rotation = s.rotation.leave victim
  /-- A tick lets the head of the line enter the round if there is room, and turns the round. -/
  ticked : s.tick.value.rotation = (s.rotation.enter s.hasRoom).turn s.outlasts
  /-- The head of the round has one slice in a tick. -/
  slice : ∀ id, (s.rotation.enter s.hasRoom).turns.head? = some id →
    s.turn? = some id ∧ ∃ p, s.table.get? id = some p ∧ s.Slices id p
  /-- If nobody is in the round, nothing happens to anybody. -/
  idle : (s.rotation.enter s.hasRoom).turns = [] → s.turn? = none ∧ ∀ id,
    Event.executions id s.tick.events = 0 ∧
      (s.tick.value.table.get? id).map Process.bare = (s.table.get? id).map Process.bare
  /-- After a tick the head of the round holds the processor. -/
  running : s.tick.value.running = s.tick.value.rotation.turns.head?
  /-- If nobody is in the round after a tick, nobody is left in the ready queue, not even one who is
  gone. -/
  drained : s.tick.value.rotation.turns = [] → s.tick.value.ready.ids = []

/-- After any requests a scheduler behaves as its rotation does, wherever it keeps identifiers of
processes that are gone. -/
theorem rotates_of_run {config : Config} {granted : List Submission} {events : List Event}
    (run : Run config granted events s) : Rotates s := by
  have placed := run.history.placed
  constructor
  case nodup => exact placed.nodup_rotation
  case mem_iff => exact fun id => placed.mem_rotation_iff
  case created =>
    intro load request t id answer created
    have timeless : request.takesTime = false := by
      cases request with
      | tick =>
        cases Option.some.inj answer
        cases created
      | runAll =>
        obtain ⟨u, -, rfl⟩ := Option.map_eq_some_iff.mp answer
        cases created
      | _ => rfl
    have became := answer_of_perform timeless answer
    rw [created] at became
    generalize t.value.2 = after at became ⊢
    cases became with
    | create submission _ => exact ⟨rfl, rotation_create placed submission⟩
  case killed =>
    intro load id t answer done
    have became := answer_of_perform rfl answer
    rw [done] at became
    generalize t.value.2 = after at became ⊢
    cases became with
    | @kill victim p found =>
      have stands := placed.mem_rotation_iff.mpr (placed.isLive_iff.mpr ⟨p, found⟩)
      exact ⟨victim, rfl, stands, rotation_without placed found⟩
  case ticked => exact rotation_tick placed
  case slice =>
    intro id head
    have turn : s.turn? = some id := (turn?_eq_head? s).trans head
    exact ⟨turn, slices_of_turn placed turn⟩
  case idle =>
    intro nobody
    have turn : s.turn? = none := by rw [turn?_eq_head?, nobody, List.head?_nil]
    refine ⟨turn, fun id => ?_⟩
    have rests := executions_tick_of_idle turn id
    exact ⟨rests, (moves_tick s).bare_eq placed rests⟩
  case running => exact running_tick s
  case drained =>
    intro nobody
    apply settled_tick s
    rw [running_tick, nobody, List.head?_nil]

/-- The running process has just been killed, one who is gone fills the ready queue together with a
process that is alive, and the line is headed by another one who is gone. -/
theorem rotates_with_gone :
    ∃ granted events s, Run { slice := 1, maxReady := 2 } granted events s ∧
      s.running = none ∧ s.ready.ids = [2, 1] ∧ s.admission.ids = [3, 4] ∧
      s.rotation = ⟨[1], [4]⟩ ∧ s.hasRoom = false ∧ Rotates s := by
  let load : String → Except Fault (List UInt8) := fun _ => .error .notFound
  let submit : Request := .submitImage ⟨1, .normal, 9, "loop", loopImage⟩
  have fresh : Run { slice := 1, maxReady := 2 } [] [] (init { slice := 1, maxReady := 2 }) :=
    .start
  have two := (fresh.serve load submit rfl).serve load submit rfl
  have created := ((two.serve load submit rfl).serve load submit rfl).serve load submit rfl
  have ticked := ((created.serve load .tick rfl).serve load .tick rfl).serve load .tick rfl
  have killed := (ticked.serve load (.kill 2) rfl).serve load (.kill 3) rfl
  have run := killed.serve load (.kill 0) rfl
  exact ⟨_, _, _, run, by decide, by decide, by decide, by decide, by decide, rotates_of_run run⟩

end Scheduler

end Timeshare
