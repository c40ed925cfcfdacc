import Mathlib
import Timeshare.Proofs.Loss
import Timeshare.Proofs.Scheduler.Accounting

/-!
# Scheduling without labels

A process has an owner, a priority and a name. `unlabelled` wipes these labels out, of processes and
of all that holds processes. Whatever a scheduler does can be done without them: wiping them out
before comes to the same as wiping them out after (`Blind`). That holds of what a tick consists of
and so of ticks (`blind_tick`), of the loop of ticks (`runAll_unlabelled`) and of every request
(`perform_unlabelled`).
-/

namespace Timeshare

/-! ## Without labels -/

def Process.unlabelled (p : Process) : Process := { p with user := 0, priority := .low, name := "" }

def Submission.unlabelled (s : Submission) : Submission :=
  { s with user := 0, priority := .low, name := "" }

def Status.unlabelled (s : Status) : Status := { s with user := 0, priority := .low, name := "" }

def Record.unlabelled (r : Record) : Record := { r with status := r.status.unlabelled }

def Event.unlabelled : Event → Event
  | created id _ _ => created id "" 0
  | terminated r => terminated r.unlabelled
  | e => e

/-- The name of a file is no label: another one may lead to another image. -/
def Request.unlabelled : Request → Request
  | submit _ _ budget path => submit 0 .low budget path
  | submitImage submission => submitImage submission.unlabelled
  | request => request

def Table.unlabelled (t : Table) : Table := ⟨t.slots.map (Option.map Process.unlabelled)⟩

def Scheduler.unlabelled (s : Scheduler) : Scheduler := { s with table := s.table.unlabelled }

def Traced.unlabelled (t : Traced Scheduler) : Traced Scheduler :=
  ⟨t.value.unlabelled, t.events.map Event.unlabelled⟩

theorem Event.records_unlabelled (events : List Event) :
    records (events.map unlabelled) = (records events).map Record.unlabelled := by
  rw [records, records, List.filterMap_map, List.map_filterMap]
  congr 1
  funext e
  cases e <;> rfl

theorem Event.unlabelled_executed (id : ProcessId) (es : List Execution) :
    (es.map (executed id)).map unlabelled = es.map (executed id) := by
  rw [List.map_map]
  rfl

/-- Going from place to place tells nothing of labels. -/
theorem Traced.unlabelled_of_passages {s : Scheduler} {events : List Event}
    (h : ∀ e ∈ events, e.IsPassage) :
    (⟨s, events⟩ : Traced Scheduler).unlabelled = ⟨s.unlabelled, events⟩ := by
  have same : events.map Event.unlabelled = events := by
    refine (List.map_congr_left fun e he => ?_).trans (List.map_id events)
    cases h e he <;> rfl
  rw [Traced.unlabelled, same]

/-! ## Processes and the table -/

theorem Process.slice_unlabelled (limit : Nat) (p : Process) :
    p.unlabelled.slice limit =
      { p.slice limit with process := (p.slice limit).process.unlabelled } := by
  induction limit generalizing p with
  | zero => rfl
  | succ limit ih =>
    have step : p.unlabelled.step = p.step.unlabelled := rfl
    have verdict : p.unlabelled.verdict = p.verdict := rfl
    rw [slice_succ, slice_succ, verdict, step, ih p.step]
    cases p.verdict <;> rfl

namespace Table

theorem get?_unlabelled (t : Table) (id : ProcessId) :
    t.unlabelled.get? id = (t.get? id).map Process.unlabelled := by
  simp only [get?, unlabelled, List.getElem?_map]
  cases t.slots[id]? <;> rfl

theorem isLive_unlabelled (t : Table) : t.unlabelled.isLive = t.isLive := by
  funext id
  rw [isLive, isLive, get?_unlabelled, Option.any_map]
  rfl

theorem nextId_unlabelled (t : Table) : t.unlabelled.nextId = t.nextId := List.length_map _

theorem insert_unlabelled (t : Table) (p : Process) :
    (t.insert p).unlabelled = t.unlabelled.insert p.unlabelled := by
  simp [insert, unlabelled]

theorem remove_unlabelled (t : Table) (id : ProcessId) :
    (t.remove id).unlabelled = t.unlabelled.remove id := by
  simp [remove, unlabelled, List.map_set]

/-- A change that does not look at labels. -/
theorem update_unlabelled (t : Table) (id : ProcessId) {f g : Process → Process}
    (h : ∀ p, (f p).unlabelled = g p.unlabelled) :
    (t.update id f).unlabelled = t.unlabelled.update id g := by
  simp only [update, unlabelled, mk.injEq]
  refine List.ext_getElem? fun i => ?_
  simp only [List.getElem?_map, List.getElem?_modify]
  by_cases here : id = i
  · rcases t.slots[i]? with - | - | p <;> simp [here, h]
  · simp [here]

theorem processes_unlabelled (t : Table) :
    t.unlabelled.processes = t.processes.map Process.unlabelled := by
  simp only [processes, unlabelled, List.filterMap_map, List.map_filterMap]
  rfl

end Table

namespace Scheduler

theorem unlabelled_unlabelled (s : Scheduler) : s.unlabelled.unlabelled = s.unlabelled := by
  simp only [unlabelled, Table.unlabelled, List.map_map, Option.map_comp_map]
  rfl

theorem create_unlabelled (s : Scheduler) (submission : Submission) :
    (s.create submission).unlabelled = s.unlabelled.create submission.unlabelled := by
  simp only [create, unlabelled, Table.insert_unlabelled, Table.nextId_unlabelled]
  rfl

theorem without_unlabelled (s : Scheduler) (p : Process) :
    (s.without p).unlabelled = s.unlabelled.without p.unlabelled := by
  simp only [without, unlabelled, Table.remove_unlabelled]
  rfl

theorem makeReady_unlabelled (s : Scheduler) (id : ProcessId) :
    (s.makeReady id).unlabelled = s.unlabelled.makeReady id := by
  have table := s.table.update_unlabelled id (f := fun p => { p with state := .ready })
    (g := fun p => { p with state := .ready }) fun _ => rfl
  simp only [makeReady, unlabelled, table]

theorem seat_unlabelled (s : Scheduler) (id : ProcessId) :
    (s.seat id).unlabelled = s.unlabelled.seat id := by
  have table := s.table.update_unlabelled id (f := fun p => { p with state := .running })
    (g := fun p => { p with state := .running }) fun _ => rfl
  simp only [seat, unlabelled, table]

theorem advance_unlabelled (s : Scheduler) (id : ProcessId) (p : Process) :
    (s.advance id p).unlabelled = s.unlabelled.advance id p.unlabelled := by
  have table := s.table.update_unlabelled id (f := fun _ => p) (g := fun _ => p.unlabelled)
    fun _ => rfl
  simp only [advance, unlabelled, table]

/-! ## Time -/

/-- What can be done without seeing the labels: it makes no difference whether they are wiped out
before or after. -/
def Blind (f : Scheduler → Traced Scheduler) : Prop := ∀ s, (f s).unlabelled = f s.unlabelled

theorem Blind.bind {f g : Scheduler → Traced Scheduler} (hf : Blind f) (hg : Blind g) :
    Blind fun s => f s >>= g := by
  intro s
  have value : (f s.unlabelled).value = (f s).value.unlabelled := by rw [← hf s]; rfl
  have events : (f s.unlabelled).events = (f s).events.map Event.unlabelled := by
    rw [← hf s]
    rfl
  have later := hg (f s).value
  simp only [Traced.unlabelled, Bind.bind, Traced.andThen, value, events, ← later,
    List.map_append]

theorem blind_admitNext : Blind admitNext := by
  intro s
  have passages := s.passages_admitNext
  by_cases full : s.config.maxReady ≤ s.ready.length
  · rw [admitNext_of_full full, admitNext_of_full (s := s.unlabelled) full]
    rfl
  · have room := Nat.lt_of_not_le full
    have same : s.unlabelled.table.isLive = s.table.isLive := s.table.isLive_unlabelled
    rcases s.admission.gone_or_split s.table.isLive with dead | ⟨gone, id, rest, split, dead, live⟩
    · have there := admitNext_of_gone (s := s.unlabelled) room (by rwa [same])
      rw [admitNext_of_gone room dead] at passages ⊢
      rw [there, Traced.unlabelled_of_passages passages]
      rfl
    · have there := admitNext_of_split (s := s.unlabelled) room split (by rwa [same])
        (by rwa [same])
      rw [admitNext_of_split room split dead live] at passages ⊢
      rw [there, Traced.unlabelled_of_passages passages, makeReady_unlabelled]
      rfl

theorem blind_dispatch : Blind Scheduler.dispatch := by
  intro s
  have passages := s.passages_dispatch
  have same : s.unlabelled.table.isLive = s.table.isLive := s.table.isLive_unlabelled
  rcases s.ready.gone_or_split s.table.isLive with dead | ⟨gone, id, rest, split, dead, live⟩
  · have there := dispatch_of_gone (s := s.unlabelled) (by rwa [same])
    rw [dispatch_of_gone dead] at passages ⊢
    rw [there, Traced.unlabelled_of_passages passages]
    rfl
  · have there := dispatch_of_split (s := s.unlabelled) split (by rwa [same]) (by rwa [same])
    rw [dispatch_of_split split dead live] at passages ⊢
    rw [there, Traced.unlabelled_of_passages passages, seat_unlabelled]
    rfl

theorem blind_requeue : Blind Scheduler.requeue := by
  intro s
  have running : s.unlabelled.running = s.running := rfl
  rw [Scheduler.requeue, Scheduler.requeue, running]
  cases s.running with
  | none => rfl
  | some id =>
    have ready := makeReady_unlabelled { s with running := none } id
    exact congrArg (fun t => (⟨t, [.requeued id]⟩ : Traced Scheduler)) ready

theorem afterSlice_unlabelled (s : Scheduler) (id : ProcessId) (slice : Slice) :
    (s.afterSlice id slice).unlabelled =
      s.unlabelled.afterSlice id { slice with process := slice.process.unlabelled } := by
  obtain ⟨p, executed, ending⟩ := slice
  have silent := Event.unlabelled_executed id executed
  have advanced := s.advance_unlabelled id p
  cases ending with
  | none =>
    change Traced.unlabelled ⟨s.advance id p, executed.map (.executed id) ++ []⟩ =
      ⟨s.unlabelled.advance id p.unlabelled, executed.map (.executed id) ++ []⟩
    simp only [Traced.unlabelled, List.append_nil, silent, advanced]
  | some ending =>
    change Traced.unlabelled ⟨(s.advance id p).without p,
        executed.map (.executed id) ++ [.terminated ⟨p.status, ending⟩]⟩ =
      ⟨(s.unlabelled.advance id p.unlabelled).without p.unlabelled,
        executed.map (.executed id) ++ [.terminated ⟨p.unlabelled.status, ending⟩]⟩
    simp only [Traced.unlabelled, List.map_append, silent, without_unlabelled, advanced]
    rfl

theorem blind_runSlice (id : ProcessId) : Blind fun s => s.runSlice id := by
  intro s
  change (s.runSlice id).unlabelled = s.unlabelled.runSlice id
  have found : s.unlabelled.table.get? id = (s.table.get? id).map Process.unlabelled :=
    s.table.get?_unlabelled id
  cases here : s.table.get? id with
  | none =>
    rw [here, Option.map_none] at found
    simp only [runSlice, here, found]
    rfl
  | some p =>
    rw [here, Option.map_some] at found
    rw [runSlice_eq here, runSlice_eq found, Process.slice_unlabelled, afterSlice_unlabelled]
    rfl

theorem blind_seated : Blind seated := by
  refine blind_admitNext.bind fun s => ?_
  have running : s.unlabelled.running = s.running := rfl
  rw [running]
  split
  · exact blind_dispatch s
  · rfl

theorem blind_serve (id : ProcessId) : Blind fun s => s.serve id :=
  (blind_runSlice id).bind (blind_requeue.bind blind_dispatch)

/-- A tick can do without labels. -/
theorem blind_tick : Blind tick := by
  intro s
  have seated : s.seated.unlabelled = s.unlabelled.seated := blind_seated s
  have turn : s.unlabelled.turn? = s.turn? := by
    rw [turn?, ← seated]
    rfl
  cases h : s.turn? with
  | none =>
    rw [tick_eq_of_idle h, tick_eq_of_idle (turn.trans h)]
    exact seated
  | some id =>
    rw [tick_eq_of_turn h, tick_eq_of_turn (turn.trans h)]
    exact blind_seated.bind (blind_serve id) s

theorem tickLimit_unlabelled (s : Scheduler) : s.unlabelled.tickLimit = s.tickLimit := by
  rw [tickLimit, tickLimit, processes, processes, unlabelled, Table.processes_unlabelled,
    List.foldr_map]
  rfl

theorem runWithin_unlabelled (limit : Nat) (s : Scheduler) :
    s.unlabelled.runWithin limit [] = (s.runWithin limit []).map Traced.unlabelled := by
  have same : ∀ s : Scheduler, s.unlabelled.isQuiescent = s.isQuiescent := fun _ => rfl
  induction limit generalizing s with
  | zero =>
    rw [runWithin, runWithin, same]
    split <;> rfl
  | succ limit ih =>
    cases quiescent : s.isQuiescent with
    | true =>
      rw [runWithin, runWithin, same, quiescent]
      rfl
    | false =>
      have busy : ¬ s.isQuiescent = true := by simp [quiescent]
      rw [runWithin_succ busy, runWithin_succ (s := s.unlabelled) busy, ← blind_tick s]
      simp only [Traced.unlabelled]
      rw [ih, Option.map_map, Option.map_map]
      congr 1
      funext t
      simp [Traced.unlabelled]

/-- The loop of ticks can do without labels, and comes to an end with them if it does without. -/
theorem runAll_unlabelled (s : Scheduler) :
    s.unlabelled.runAll = s.runAll.map Traced.unlabelled := by
  rw [runAll, runAll, tickLimit_unlabelled, runWithin_unlabelled]

/-! ## Requests -/

variable {load : String → Except Fault (List UInt8)} {request request' : Request}

/-- An answer without labels, along with what it leaves. -/
def answered (t : Traced (Reply × Scheduler)) : Reply × Traced Scheduler :=
  (t.value.1, Traced.unlabelled ⟨t.value.2, t.events⟩)

theorem lookup_unlabelled (s : Scheduler) (id : Int) :
    s.unlabelled.lookup id = (s.lookup id).map Process.unlabelled := by
  have found : s.unlabelled.process? id.toNat = (s.process? id.toNat).map Process.unlabelled :=
    s.table.get?_unlabelled id.toNat
  rw [lookup, lookup, found]
  split
  · rfl
  · cases s.process? id.toNat <;> rfl

theorem answered_create (s : Scheduler) {submission submission' : Submission}
    (alike : submission.unlabelled = submission'.unlabelled) :
    answered ⟨(.created s.table.nextId, s.create submission),
        [.created s.table.nextId submission.name submission.user]⟩ =
      answered ⟨(.created s.unlabelled.table.nextId, s.unlabelled.create submission'),
        [.created s.unlabelled.table.nextId submission'.name submission'.user]⟩ := by
  have same : s.unlabelled.table.nextId = s.table.nextId := s.table.nextId_unlabelled
  simp only [answered, Traced.unlabelled, create_unlabelled, unlabelled_unlabelled, alike, same]
  rfl

theorem submission?_unlabelled (load : String → Except Fault (List UInt8)) (request : Request) :
    (request.unlabelled.submission? load).map Submission.unlabelled =
      (request.submission? load).map Submission.unlabelled := by
  cases request with
  | submit user priority budget path =>
    simp only [Request.unlabelled, Request.submission?]
    cases load path <;> rfl
  | submitImage submission => rfl
  | kill | tick | runAll => rfl

theorem perform_creation_unlabelled (s : Scheduler) (creates : request.creates = true) :
    (s.perform load request).map answered =
      (s.unlabelled.perform load request.unlabelled).map answered := by
  have slots : s.unlabelled.isFull = s.isFull := by
    rw [isFull, isFull, unlabelled, Table.nextId_unlabelled]
  have again := s.unlabelled_unlabelled
  obtain ⟨t, performed, creation⟩ := s.exists_creation load creates
  rw [performed]
  cases creation with
  | full full =>
    have creates' : request.unlabelled.creates = true := by cases request <;> exact creates
    rw [perform_of_full (slots.trans full) creates', Option.map_some, Option.map_some, answered,
      answered, Traced.unlabelled, Traced.unlabelled, again]
    rfl
  | unreadable room unreadable =>
    rw [Request.unlabelled, perform_of_unreadable (slots.trans room) unreadable]
    simp only [Option.map_some, answered, Traced.unlabelled, again]
  | granted room made =>
    have made' := submission?_unlabelled load request
    rw [made, Option.map_some, Option.map_eq_some_iff] at made'
    -- The other submission may have another name: that of a file is kept, that of an image is not.
    obtain ⟨submission', made', alike⟩ := made'
    rw [perform_of_room (slots.trans room) made']
    exact congrArg some (answered_create s alike.symm)

/-- What a request is answered, and what it leaves, does not hang on labels. -/
theorem perform_unlabelled (s : Scheduler) (load : String → Except Fault (List UInt8))
    (request : Request) :
    (s.perform load request).map answered =
      (s.unlabelled.perform load request.unlabelled).map answered := by
  have again := s.unlabelled_unlabelled
  cases request with
  | submit | submitImage => exact s.perform_creation_unlabelled rfl
  | kill id =>
    have found' := s.lookup_unlabelled id
    cases found : s.lookup id with
    | error refusal =>
      rw [found] at found'
      simp only [perform, Request.unlabelled, kill_of_error found, kill_of_error found',
        Option.map_some, answered, Traced.unlabelled, Traced.value_bind, Traced.value_pure, again]
      rfl
    | ok p =>
      rw [found] at found'
      simp only [perform, Request.unlabelled, kill_of_ok found, kill_of_ok found',
        Option.map_some, answered, Traced.unlabelled, Traced.value_bind, Traced.value_pure,
        without_unlabelled, again]
      rfl
  | tick =>
    change (s.perform load .tick).map answered = (s.unlabelled.perform load .tick).map answered
    rw [perform_tick, perform_tick]
    change some (Reply.done, s.tick.unlabelled) = some (Reply.done, s.unlabelled.tick.unlabelled)
    rw [blind_tick s, blind_tick s.unlabelled, again]
  | runAll =>
    have drained : ∀ s : Scheduler, (s.perform load .runAll).map answered =
        (s.runAll.map Traced.unlabelled).map (Prod.mk Reply.done) := fun s => by
      rw [perform, Option.map_map, Option.map_map]
      rfl
    change (s.perform load .runAll).map answered = (s.unlabelled.perform load .runAll).map answered
    rw [drained, drained, ← runAll_unlabelled, ← runAll_unlabelled, again]

/-- Alike requests are answered the same in schedulers that are the same but for the labels. -/
theorem perform_alike {s s' : Scheduler} (same : s.unlabelled = s'.unlabelled)
    (load : String → Except Fault (List UInt8)) (alike : request.unlabelled = request'.unlabelled) :
    (s.perform load request).map answered = (s'.perform load request').map answered := by
  rw [perform_unlabelled s, perform_unlabelled s', same, alike]

end Scheduler

end Timeshare
