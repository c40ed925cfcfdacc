import Mathlib
import Timeshare.Scheduler.Request
import Timeshare.Proofs.Scheduler.Move

/-!
# Histories

`Run` is what a scheduler can go through from the outside: it starts empty and answers requests, in
any order and number. Reading a file may yield anything, and something else each time, so a run
does not depend on the world that images come from; what becomes of the records has no part in it.
A run remembers the submissions that were granted, in the order of their identifiers, and the
events. `Chronicle` is the same story told tick by tick and `History` move by move. Every run has
both (`Run.chronicle`, `Run.history`), so what holds at the start and is kept by refusals,
creations, kills and ticks holds after every run, and what moves keep too holds at every point.
-/

namespace Timeshare

/-- The submission that a request makes, given what reading a file yields. -/
def Request.submission? (load : String → Except Fault (List UInt8)) : Request → Option Submission
  | .submit user priority budget path =>
    (load path).toOption.map fun image => { user, priority, budget, name := path, image }
  | .submitImage submission => some submission
  | _ => none

/-- The submissions that an answer grants: the one that was made, if a process was created. -/
def Request.granted (load : String → Except Fault (List UInt8)) (request : Request) :
    Reply → List Submission
  | .created _ => (request.submission? load).toList
  | _ => []

/-- Whether a request lets ticks pass. -/
def Request.takesTime : Request → Bool
  | .tick => true
  | .runAll => true
  | _ => false

/-- An event that tells of something that did not happen. -/
def Event.IsRefusal (e : Event) : Prop :=
  e = .tableFull ∨ ∃ path fault, e = .imageUnreadable path fault

namespace Scheduler

/-- The submissions granted, the events and the state after some requests. -/
inductive Run (config : Config) : List Submission → List Event → Scheduler → Prop
  | start : Run config [] [] (init config)
  | serve {granted : List Submission} {events : List Event} {s : Scheduler}
      {t : Traced (Reply × Scheduler)} (load : String → Except Fault (List UInt8))
      (request : Request) (past : Run config granted events s)
      (answer : s.perform load request = some t) :
      Run config (granted ++ request.granted load t.value.1) (events ++ t.events) t.value.2

/-- What further requests bring: the submissions granted, the events and the state after them. -/
inductive Further (s : Scheduler) : List Submission → List Event → Scheduler → Prop
  | rest : Further s [] [] s
  | serve {granted : List Submission} {events : List Event} {t : Scheduler}
      {u : Traced (Reply × Scheduler)} (load : String → Except Fault (List UInt8))
      (request : Request) (past : Further s granted events t)
      (answer : t.perform load request = some u) :
      Further s (granted ++ request.granted load u.value.1) (events ++ u.events) u.value.2

theorem Run.further {config : Config} {granted more : List Submission} {events es : List Event}
    {s t : Scheduler} (run : Run config granted events s) (further : Further s more es t) :
    Run config (granted ++ more) (events ++ es) t := by
  induction further with
  | rest => simpa using run
  | serve load request _ answer ih =>
    rw [← List.append_assoc, ← List.append_assoc]
    exact ih.serve load request answer

/-! ## Creation -/

/-- A further process, waiting for admission. -/
def create (s : Scheduler) (submission : Submission) : Scheduler :=
  { s with
    table := s.table.insert (submission.process s.table.nextId)
    admission := s.admission.enqueue s.table.nextId }

theorem submitImage_of_full {s : Scheduler} (h : s.isFull = true) (submission : Submission) :
    s.submitImage submission =
      ⟨(.error (.tableFull s.config.maxProcesses), s), [.tableFull]⟩ := by
  rw [submitImage, if_pos h]
  rfl

theorem submitImage_of_room {s : Scheduler} (h : s.isFull = false) (submission : Submission) :
    s.submitImage submission =
      ⟨(.ok s.table.nextId, s.create submission),
        [.created s.table.nextId submission.name submission.user]⟩ := by
  rw [submitImage, if_neg (by simp [h])]
  rfl

theorem submit_of_full {s : Scheduler} (h : s.isFull = true) (user : Int) (priority : Priority)
    (budget : Cycles) (path : String) (image : Except Fault (List UInt8)) :
    s.submit user priority budget path image =
      ⟨(.error (.tableFull s.config.maxProcesses), s), [.tableFull]⟩ := by
  simp only [submit, h]
  rfl

theorem submit_of_unreadable {s : Scheduler} (h : s.isFull = false) (user : Int)
    (priority : Priority) (budget : Cycles) (path : String) (fault : Fault) :
    s.submit user priority budget path (.error fault) =
      ⟨(.error (.imageUnreadable path fault), s), [.imageUnreadable path fault]⟩ := by
  simp only [submit, h]
  rfl

theorem submit_of_room {s : Scheduler} (h : s.isFull = false) (user : Int) (priority : Priority)
    (budget : Cycles) (path : String) (image : List UInt8) :
    s.submit user priority budget path (.ok image) =
      s.submitImage { user, priority, budget, name := path, image } := by
  simp only [submit, h]
  rfl

theorem perform_submitImage_of_room {s : Scheduler} (h : s.isFull = false)
    (load : String → Except Fault (List UInt8)) (submission : Submission) :
    s.perform load (.submitImage submission) =
      some ⟨(.created s.table.nextId, s.create submission),
        [.created s.table.nextId submission.name submission.user]⟩ := by
  rw [perform, submitImage_of_room h]
  rfl

theorem perform_tick (s : Scheduler) (load : String → Except Fault (List UInt8)) :
    s.perform load .tick = some ⟨(.done, s.tick.value), s.tick.events⟩ := by
  simp [perform, Bind.bind, Traced.andThen, pure, Traced.still]

/-! ## Kills -/

theorem lookup_eq_ok_iff {s : Scheduler} {id : Int} {p : Process} :
    s.lookup id = .ok p ↔ 0 ≤ id ∧ s.table.get? id.toNat = some p := by
  unfold lookup process?
  split
  · simp
    omega
  · cases s.table.get? id.toNat <;> simp
    omega

theorem kill_of_error {s : Scheduler} {id : Int} {refusal : Refusal}
    (h : s.lookup id = .error refusal) : s.kill id = ⟨(.error refusal, s), []⟩ := by
  simp only [kill, h]
  rfl

theorem kill_of_ok {s : Scheduler} {id : Int} {p : Process} (h : s.lookup id = .ok p) :
    s.kill id = ⟨(.ok (), s.without p), [.terminated ⟨p.status, .killed⟩]⟩ := by
  simp only [kill, h]
  rfl

/-! ## Chronicles -/

/-- The refusals, the creations, the kills and the ticks that a scheduler went through. -/
inductive Chronicle (config : Config) : List Submission → List Event → Scheduler → Prop
  | start : Chronicle config [] [] (init config)
  | refuse {granted : List Submission} {events : List Event} {s : Scheduler} {e : Event}
      (past : Chronicle config granted events s) (refusal : e.IsRefusal) :
      Chronicle config granted (events ++ [e]) s
  | create {granted : List Submission} {events : List Event} {s : Scheduler}
      (submission : Submission) (past : Chronicle config granted events s)
      (room : s.isFull = false) :
      Chronicle config (granted ++ [submission])
        (events ++ [.created s.table.nextId submission.name submission.user])
        (s.create submission)
  | kill {granted : List Submission} {events : List Event} {s : Scheduler} {id : ProcessId}
      {p : Process} (past : Chronicle config granted events s)
      (found : s.table.get? id = some p) :
      Chronicle config granted (events ++ [.terminated ⟨p.status, .killed⟩]) (s.without p)
  | tick {granted : List Submission} {events : List Event} {s : Scheduler}
      (past : Chronicle config granted events s) :
      Chronicle config granted (events ++ s.tick.events) s.tick.value

section

variable {config : Config} {granted : List Submission} {events : List Event} {s : Scheduler}

theorem Chronicle.ticks (h : Chronicle config granted events s) (n : Nat) :
    Chronicle config granted (events ++ (Scheduler.ticks n s).events)
      (Scheduler.ticks n s).value := by
  induction n generalizing events s with
  | zero => simpa [Scheduler.ticks] using h
  | succ n ih => simpa [Scheduler.ticks] using ih h.tick

theorem Chronicle.submitImage (h : Chronicle config granted events s)
    (load : String → Except Fault (List UInt8)) {request : Request} {submission : Submission}
    (made : request.submission? load = some submission) :
    Chronicle config
      (granted ++ request.granted load (.ofSubmission (s.submitImage submission).value.1))
      (events ++ (s.submitImage submission).events) (s.submitImage submission).value.2 := by
  cases full : s.isFull with
  | true =>
    rw [submitImage_of_full full]
    simpa [Request.granted, Reply.ofSubmission] using h.refuse (.inl rfl)
  | false =>
    rw [submitImage_of_room full]
    simpa [Request.granted, Reply.ofSubmission, made] using h.create submission full

/-- Whatever is asked, the answer is a continuation of the chronicle. -/
theorem Chronicle.perform (h : Chronicle config granted events s)
    {load : String → Except Fault (List UInt8)} {request : Request}
    {t : Traced (Reply × Scheduler)} (answer : s.perform load request = some t) :
    Chronicle config (granted ++ request.granted load t.value.1) (events ++ t.events)
      t.value.2 := by
  cases request with
  | submit user priority budget path =>
    cases Option.some.inj answer
    simp only [Traced.value_bind, Traced.events_bind, Traced.value_pure, Traced.events_pure,
      List.append_nil]
    cases full : s.isFull with
    | true =>
      rw [submit_of_full full]
      simpa [Request.granted, Reply.ofSubmission] using h.refuse (.inl rfl)
    | false =>
      cases read : load path with
      | error fault =>
        rw [submit_of_unreadable full]
        simpa [Request.granted, Reply.ofSubmission] using h.refuse (.inr ⟨path, fault, rfl⟩)
      | ok image =>
        rw [submit_of_room full]
        exact h.submitImage load (by simp [Request.submission?, read, Except.toOption])
  | submitImage submission =>
    cases Option.some.inj answer
    have made : (Request.submitImage submission).submission? load = some submission := rfl
    simpa using h.submitImage load made
  | kill id =>
    cases Option.some.inj answer
    cases found : s.lookup id with
    | error refusal =>
      rw [kill_of_error found]
      simpa [Request.granted, Reply.ofKill] using h
    | ok p =>
      rw [kill_of_ok found]
      simpa [Request.granted, Reply.ofKill] using h.kill (lookup_eq_ok_iff.mp found).2
  | tick =>
    cases Option.some.inj answer
    simpa [Request.granted] using h.tick
  | runAll =>
    obtain ⟨u, hu, rfl⟩ := Option.map_eq_some_iff.mp answer
    obtain ⟨n, rfl⟩ := runWithin_eq_ticks hu
    simpa [Request.granted] using h.ticks n

/-- Every run has a chronicle. -/
theorem Run.chronicle (h : Run config granted events s) : Chronicle config granted events s := by
  induction h with
  | start => exact .start
  | serve load request _ answer ih => exact ih.perform answer

end

/-! ## Histories -/

/-- The refusals, the creations, the kills and the moves that a scheduler went through. -/
inductive History (config : Config) : List Submission → List Event → Scheduler → Prop
  | start : History config [] [] (init config)
  | refuse {granted : List Submission} {events : List Event} {s : Scheduler} {e : Event}
      (past : History config granted events s) (refusal : e.IsRefusal) :
      History config granted (events ++ [e]) s
  | create {granted : List Submission} {events : List Event} {s : Scheduler}
      (submission : Submission) (past : History config granted events s)
      (room : s.isFull = false) :
      History config (granted ++ [submission])
        (events ++ [.created s.table.nextId submission.name submission.user])
        (s.create submission)
  | kill {granted : List Submission} {events : List Event} {s : Scheduler} {id : ProcessId}
      {p : Process} (past : History config granted events s)
      (found : s.table.get? id = some p) :
      History config granted (events ++ [.terminated ⟨p.status, .killed⟩]) (s.without p)
  | move {granted : List Submission} {events es : List Event} {s t : Scheduler}
      (past : History config granted events s) (move : Move s es t) :
      History config granted (events ++ es) t

section

variable {config : Config} {granted : List Submission} {events : List Event} {s : Scheduler}

theorem History.moves {es : List Event} {t : Scheduler} (h : History config granted events s)
    (moves : Moves s es t) : History config granted (events ++ es) t := by
  induction moves generalizing events with
  | nil => simpa using h
  | cons first _ ih =>
    rw [← List.append_assoc]
    exact ih (.move h first)

/-- A chronicle is a history whose ticks are not cut into moves. -/
theorem Chronicle.history (h : Chronicle config granted events s) :
    History config granted events s := by
  induction h with
  | start => exact .start
  | refuse _ refusal ih => exact ih.refuse refusal
  | create submission _ room ih => exact ih.create submission room
  | kill _ found ih => exact ih.kill found
  | tick _ ih => exact ih.moves (moves_tick _)

/-- Every run has a history. -/
theorem Run.history (h : Run config granted events s) : History config granted events s :=
  h.chronicle.history

/-- The limits of a scheduler never change. -/
theorem History.config_eq (h : History config granted events s) : s.config = config := by
  induction h with
  | start => rfl
  | refuse _ _ ih => exact ih
  | create _ _ _ ih => exact ih
  | kill _ _ ih => exact ih
  | move _ move ih => cases move <;> exact ih

/-! ## Requests one by one -/

/-- What becomes of a scheduler by a request that takes no time, with the answer: nothing, or there
is one process more, or one less. -/
inductive Answer (s : Scheduler) : Request → Reply → Scheduler → Prop
  | refuse {request : Request} (refusal : Refusal) : Answer s request (.refused refusal) s
  | create {request : Request} (submission : Submission) (room : s.isFull = false) :
      Answer s request (.created s.table.nextId) (s.create submission)
  | kill {id : ProcessId} {p : Process} (found : s.table.get? id = some p) :
      Answer s (.kill id) .done (s.without p)

theorem answer_submitImage (s : Scheduler) (request : Request) (submission : Submission) :
    Answer s request (.ofSubmission (s.submitImage submission).value.1)
      (s.submitImage submission).value.2 := by
  cases full : s.isFull with
  | true =>
    rw [submitImage_of_full full]
    exact .refuse _
  | false =>
    rw [submitImage_of_room full]
    exact .create submission full

/-- Requests that let time pass aside, that is all that a request can do. -/
theorem answer_of_perform {load : String → Except Fault (List UInt8)} {request : Request}
    {t : Traced (Reply × Scheduler)} (timeless : request.takesTime = false)
    (answer : s.perform load request = some t) : Answer s request t.value.1 t.value.2 := by
  cases request with
  | submit user priority budget path =>
    cases Option.some.inj answer
    simp only [Traced.value_bind, Traced.value_pure]
    cases full : s.isFull with
    | true =>
      rw [submit_of_full full]
      exact .refuse _
    | false =>
      cases load path with
      | error fault =>
        rw [submit_of_unreadable full]
        exact .refuse _
      | ok image =>
        rw [submit_of_room full]
        exact answer_submitImage s _ _
  | submitImage submission =>
    cases Option.some.inj answer
    exact answer_submitImage s _ submission
  | kill id =>
    cases Option.some.inj answer
    simp only [Traced.value_bind, Traced.value_pure]
    cases found : s.lookup id with
    | error refusal =>
      rw [kill_of_error found]
      exact .refuse refusal
    | ok p =>
      rw [kill_of_ok found]
      obtain ⟨positive, present⟩ := lookup_eq_ok_iff.mp found
      obtain ⟨n, rfl⟩ := Int.eq_ofNat_of_zero_le positive
      exact .kill present
  | tick => cases timeless
  | runAll => cases timeless

theorem Run.create (h : Run config granted events s) (room : s.isFull = false)
    (submission : Submission) :
    Run config (granted ++ [submission])
      (events ++ [.created s.table.nextId submission.name submission.user])
      (s.create submission) := by
  exact h.serve _ _ (perform_submitImage_of_room room (fun _ => .error .notFound) submission)

theorem Run.tick (h : Run config granted events s) :
    Run config granted (events ++ s.tick.events) s.tick.value := by
  have answer := h.serve _ _ (perform_tick s fun _ => .error .notFound)
  simpa [Request.granted] using answer

end

end Scheduler

end Timeshare
