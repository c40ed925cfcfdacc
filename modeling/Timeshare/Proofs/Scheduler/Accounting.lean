import Mathlib
import Timeshare.Proofs.Simulation
import Timeshare.Proofs.Scheduler.Records

/-!
# Slots

A submission takes a slot for good. So whether there is one left is a matter of how many submissions
were granted, and not of how many processes are alive (`History.isFull_iff`). What becomes of a
submission is decided in this order: whether a slot is left (`perform_of_full`), whether the image
can be read (`perform_of_unreadable`), and then it is granted (`perform_of_room`). A refusal leaves
everything as it was (`unchanged_of_refused`). `accounted_of_run` puts this together.
-/

namespace Timeshare

/-- Whether a request asks for a new process. -/
def Request.creates : Request → Bool
  | .submit .. => true
  | .submitImage _ => true
  | _ => false

namespace Scheduler

variable {config : Config} {granted : List Submission} {events : List Event} {s t : Scheduler}
  {load : String → Except Fault (List UInt8)} {request : Request}

/-- What a request is answered. -/
def reply? (s : Scheduler) (load : String → Except Fault (List UInt8)) (request : Request) :
    Option Reply :=
  (s.perform load request).map fun t => t.value.1

/-! ## Answers -/

/-- Without a slot nobody asks for the image. -/
theorem perform_of_full (full : s.isFull = true) (creates : request.creates = true) :
    s.perform load request =
      some ⟨(.refused (.tableFull s.config.maxProcesses), s), [.tableFull]⟩ := by
  cases request with
  | submit user priority budget path =>
    rw [perform, submit_of_full full]
    rfl
  | submitImage submission =>
    rw [perform, submitImage_of_full full]
    rfl
  | kill | tick | runAll => cases creates

theorem perform_of_unreadable (room : s.isFull = false) {path : String} {fault : Fault}
    (unreadable : load path = .error fault) (user : Int) (priority : Priority) (budget : Cycles) :
    s.perform load (.submit user priority budget path) =
      some ⟨(.refused (.imageUnreadable path fault), s), [.imageUnreadable path fault]⟩ := by
  rw [perform, unreadable, submit_of_unreadable room]
  rfl

theorem perform_of_room (room : s.isFull = false) {submission : Submission}
    (made : request.submission? load = some submission) :
    s.perform load request =
      some ⟨(.created s.table.nextId, s.create submission),
        [.created s.table.nextId submission.name submission.user]⟩ := by
  cases request with
  | submit user priority budget path =>
    cases image : load path with
    | error fault => simp [Request.submission?, image, Except.toOption] at made
    | ok bytes =>
      simp only [Request.submission?, image, Except.toOption, Option.map_some,
        Option.some.injEq] at made
      rw [perform, image, submit_of_room room, made, submitImage_of_room room]
      rfl
  | submitImage other =>
    obtain rfl : other = submission := Option.some.inj made
    exact perform_submitImage_of_room room load other
  | kill | tick | runAll => cases made

/-- What a request for a new process can come to. -/
inductive Creation (s : Scheduler) (load : String → Except Fault (List UInt8)) :
    Request → Traced (Reply × Scheduler) → Prop
  | full {request : Request} (full : s.isFull = true) :
      Creation s load request
        ⟨(.refused (.tableFull s.config.maxProcesses), s), [.tableFull]⟩
  | unreadable {user : Int} {priority : Priority} {budget : Cycles} {path : String} {fault : Fault}
      (room : s.isFull = false) (unreadable : load path = .error fault) :
      Creation s load (.submit user priority budget path)
        ⟨(.refused (.imageUnreadable path fault), s), [.imageUnreadable path fault]⟩
  | granted {request : Request} {submission : Submission} (room : s.isFull = false)
      (made : request.submission? load = some submission) :
      Creation s load request ⟨(.created s.table.nextId, s.create submission),
        [.created s.table.nextId submission.name submission.user]⟩

/-- A request for a new process always has an answer. -/
theorem exists_creation (s : Scheduler) (load : String → Except Fault (List UInt8))
    (creates : request.creates = true) :
    ∃ t, s.perform load request = some t ∧ Creation s load request t := by
  cases full : s.isFull with
  | true => exact ⟨_, perform_of_full full creates, .full full⟩
  | false =>
    cases request with
    | submit user priority budget path =>
      cases image : load path with
      | error fault =>
        exact ⟨_, perform_of_unreadable full image _ _ _, .unreadable full image⟩
      | ok bytes =>
        have made : (Request.submit user priority budget path).submission? load =
            some ⟨user, priority, budget, path, bytes⟩ := by
          simp [Request.submission?, image, Except.toOption]
        exact ⟨_, perform_of_room full made, .granted full made⟩
    | submitImage submission => exact ⟨_, perform_of_room full rfl, .granted full rfl⟩
    | kill | tick | runAll => cases creates

theorem creation_of_perform {t : Traced (Reply × Scheduler)} (creates : request.creates = true)
    (answer : s.perform load request = some t) : Creation s load request t := by
  obtain ⟨u, performed, creation⟩ := s.exists_creation load creates
  rwa [Option.some.inj (answer.symm.trans performed)]

/-- Nobody is created unless that was asked for. -/
theorem creates_of_created {t : Traced (Reply × Scheduler)} {id : ProcessId}
    (answer : s.perform load request = some t) (created : t.value.1 = .created id) :
    request.creates = true := by
  cases request with
  | submit | submitImage => rfl
  | kill victim =>
    cases Option.some.inj answer
    simp only [Traced.value_bind, Traced.value_pure] at created
    generalize (s.kill victim).value.1 = result at created
    cases result <;> cases created
  | tick =>
    cases Option.some.inj answer
    cases created
  | runAll =>
    obtain ⟨u, -, rfl⟩ := Option.map_eq_some_iff.mp answer
    cases created

/-- Whatever is refused leaves the scheduler as it was, and no record. -/
theorem unchanged_of_refused {t : Traced (Reply × Scheduler)} {refusal : Refusal}
    (answer : s.perform load request = some t) (refused : t.value.1 = .refused refusal) :
    t.value.2 = s ∧ Event.records t.events = [] := by
  cases creates : request.creates with
  | true =>
    cases creation_of_perform creates answer with
    | full => exact ⟨rfl, rfl⟩
    | unreadable => exact ⟨rfl, rfl⟩
    | granted => cases refused
  | false =>
    cases request with
    | submit | submitImage => cases creates
    | kill id =>
      cases Option.some.inj answer
      simp only [Traced.value_bind, Traced.events_bind, Traced.value_pure, Traced.events_pure]
      cases found : s.lookup id with
      | error other =>
        rw [kill_of_error found]
        exact ⟨rfl, rfl⟩
      | ok p =>
        rw [Traced.value_bind, kill_of_ok found] at refused
        cases refused
    | tick =>
      cases Option.some.inj answer
      cases refused
    | runAll =>
      obtain ⟨u, -, rfl⟩ := Option.map_eq_some_iff.mp answer
      cases refused

/-! ## Slots -/

/-- Slots are used up by the submissions that were granted. -/
theorem History.isFull_iff (h : History config granted events s) :
    s.isFull = true ↔ granted.length = config.maxProcesses := by
  have count := h.faithful.count
  have capacity := h.placed.capacity
  rw [h.config_eq] at capacity
  rw [isFull, h.config_eq, decide_eq_true_iff, count]
  exact ⟨fun full => Nat.le_antisymm capacity full, fun same => same.ge⟩

theorem History.isFull_eq_false_iff (h : History config granted events s) :
    s.isFull = false ↔ granted.length ≠ config.maxProcesses := by
  rw [← Bool.not_eq_true, h.isFull_iff]

/-- There is one process more, which is new and the last one of the line, and that is all. -/
structure Gains (s : Scheduler) (id : ProcessId) (submission : Submission) (t : Scheduler) :
    Prop where
  fresh : s.table.get? id = none
  found : ∃ p, t.table.get? id = some p ∧ p = submission.process id ∧ p.state = .new
  others : ∀ other, other ≠ id → t.table.get? other = s.table.get? other
  processes : t.processes = s.processes ++ [submission.process id]
  line : t.admission.ids = s.admission.ids ++ [id]
  ready : t.ready = s.ready
  running : t.running = s.running

theorem gains_create (s : Scheduler) (submission : Submission) :
    s.Gains s.table.nextId submission (s.create submission) where
  fresh := by
    rw [Option.eq_none_iff_forall_ne_some]
    exact fun p found => (Table.lt_nextId_of_get? found).false
  found := ⟨_, by rw [create, Table.get?_insert, if_pos rfl], rfl, rfl⟩
  others := by
    intro other different
    rw [create, Table.get?_insert, if_neg different]
  processes := Table.processes_insert _ _
  line := rfl
  ready := rfl
  running := rfl

/-- What is answered to a scheduler's next request when so many submissions have been granted. -/
structure Accounted (config : Config) (granted : List Submission) (s : Scheduler) : Prop where
  /-- Every request that is answered with a new process counts as one submission granted. -/
  counted : ∀ load request t id, s.perform load request = some t → t.value.1 = .created id →
    ∃ submission, request.granted load t.value.1 = [submission]
  /-- A new process is refused for want of a slot exactly when all slots were granted, whoever is
  gone by then and whatever reading the image would yield. -/
  full : ∀ load request, request.creates = true →
    (s.reply? load request = some (.refused (.tableFull config.maxProcesses)) ↔
      granted.length = config.maxProcesses)
  /-- Else it is refused for its image exactly when that cannot be read. -/
  unreadable : granted.length ≠ config.maxProcesses → ∀ load user priority budget path fault,
    (s.reply? load (.submit user priority budget path) =
      some (.refused (.imageUnreadable path fault)) ↔ load path = .error fault)
  /-- Else it is created, and numbered by the submissions granted before. -/
  created : granted.length ≠ config.maxProcesses → ∀ load request submission,
    request.submission? load = some submission →
      ∃ t, s.perform load request = some t ∧ t.value.1 = .created granted.length ∧
        s.Gains granted.length submission t.value.2 ∧ Event.records t.events = []
  /-- Whatever is refused leaves the scheduler as it was, and no record. -/
  refused : ∀ load request t refusal, s.perform load request = some t →
    t.value.1 = .refused refusal → t.value.2 = s ∧ Event.records t.events = []
  /-- So the world is not offered anything either. -/
  unchanged : ∀ {σ : Type} (host : Host σ) (world : σ) request after refusal outputs,
    (⟨s, world⟩ : Simulation σ).perform host request = some (after, .refused refusal, outputs) →
      after = ⟨s, world⟩ ∧ Output.records outputs = []

/-- After any requests, what becomes of a further submission is a matter of the submissions granted
so far and of its image, and a refusal changes nothing. -/
theorem accounted_of_run (run : Run config granted events s) : Accounted config granted s := by
  have history := run.history
  have count := history.faithful.count
  have config_eq := history.config_eq
  constructor
  case counted =>
    intro load request t id answer created
    cases creation_of_perform (creates_of_created answer created) answer with
    | full => cases created
    | unreadable => cases created
    | granted _ made => exact ⟨_, by rw [Request.granted, made]; rfl⟩
  case full =>
    intro load request creates
    obtain ⟨t, performed, creation⟩ := s.exists_creation load creates
    rw [← history.isFull_iff, reply?, performed]
    cases creation with
    | full full => simp [full, config_eq]
    | unreadable room => simp [room]
    | granted room => simp [room]
  case unreadable =>
    intro slots load user priority budget path fault
    have room := history.isFull_eq_false_iff.mpr slots
    have creates : (Request.submit user priority budget path).creates = true := rfl
    obtain ⟨t, performed, creation⟩ := s.exists_creation load creates
    rw [reply?, performed]
    cases creation with
    | full full => cases room.symm.trans full
    | unreadable _ unreadable => simp [unreadable]
    | granted _ made =>
      cases image : load path with
      | error other => simp [Request.submission?, image, Except.toOption] at made
      | ok bytes => simp
  case created =>
    intro slots load request submission made
    have room := history.isFull_eq_false_iff.mpr slots
    refine ⟨_, perform_of_room room made, ?_, ?_, rfl⟩
    · rw [count]
    · rw [count]
      exact gains_create s submission
  case refused => exact fun _ _ _ _ answer refused => unchanged_of_refused answer refused
  case unchanged =>
    intro σ host world request after refusal outputs answer
    obtain ⟨t, performed, same⟩ := Option.map_eq_some_iff.mp answer
    simp only [Prod.mk.injEq] at same
    obtain ⟨rfl, refused, rfl⟩ := same
    obtain ⟨scheduler, records⟩ := unchanged_of_refused performed refused
    rw [host.world_settle, host.records_settle, Output.records_events, records, scheduler]
    exact ⟨rfl, rfl⟩

/-- Three submissions were granted under a limit of three, between two that were not. One of the
three has stopped and one was killed, and still there is no slot for a fourth one. -/
theorem accounted_with_endings :
    ∃ granted events s, Run { slice := 1, maxProcesses := 3 } granted events s ∧
      granted.map Submission.name = ["stop", "loop", "loop"] ∧ s.processCount = 1 ∧
      Event.records events ≠ [] ∧ s.reply? (fun _ => .error .notFound)
        (.submit 1 .low 9 "absent") = some (.refused (.tableFull 3)) ∧
      Accounted { slice := 1, maxProcesses := 3 } granted s := by
  let load : String → Except Fault (List UInt8) := fun path =>
    if path = "loop" then .ok loopImage else .error .notFound
  let submit (path : String) : Request := .submit 1 .normal 9 path
  have fresh : Run { slice := 1, maxProcesses := 3 } [] []
      (init { slice := 1, maxProcesses := 3 }) := .start
  have first := fresh.serve load (.submitImage ⟨1, .low, 0, "stop", []⟩) rfl
  have second := (first.serve load (submit "absent") rfl).serve load (submit "loop") rfl
  have ended := (second.serve load .tick rfl).serve load (.kill 1) rfl
  have run := (ended.serve load (submit "loop") rfl).serve load (submit "loop") rfl
  exact ⟨_, _, _, run, by decide, by decide, by decide, by decide, accounted_of_run run⟩

end Scheduler

end Timeshare
