import Mathlib
import Timeshare.Proofs.Simulation
import Timeshare.Proofs.Scheduler.Quiescence
import Timeshare.Proofs.Scheduler.Records
import Timeshare.Storage.Archive

/-!
# Outcomes

What becomes of a submission whose process is left to itself is written in the submission:
`Submission.outcome` is the record of its lone run, without a number. `History.outcomes` says that
the records of a scheduler in which nobody is left and nobody was killed are the outcomes of the
submissions, in some order, and `Undisturbed.completes` that submissions come to such a state when
enough time passes. So neither the order of the submissions nor the limits of the scheduler nor the
ticks between the submissions matter (`outcomes_perm`).
-/

namespace Timeshare

/-- A record without the number of its process. -/
def Record.anonymous (r : Record) : Record := { r with status := { r.status with id := 0 } }

/-- The record that a submission leads to when its process runs alone to its end. -/
def Submission.outcome (s : Submission) : Record :=
  let slice := (s.process 0).slice (s.process 0).workLimit
  ⟨{ slice.process.status with state := .running }, slice.ending.getD .timeLimit⟩

namespace Process

variable {p : Process} {j k : Nat} {ending : Ending}

/-- A slice that is long enough ends as the process does. -/
theorem slice_of_ends (survives : p.Survives j) (ends : (step^[j] p).verdict = some ending)
    (long : j < k) : (p.slice k).process = step^[j + 1] p ∧ (p.slice k).ending = some ending := by
  induction k generalizing p j with
  | zero => cases long
  | succ k ih =>
    rw [slice_succ]
    cases j with
    | zero =>
      have now : p.verdict = some ending := ends
      rw [now]
      exact ⟨rfl, rfl⟩
    | succ j =>
      obtain ⟨goes, later⟩ := survives_succ_iff_step.mp survives
      rw [goes]
      exact ih later ends (Nat.lt_of_succ_lt_succ long)

/-! ## Numbers -/

/-- The number of a process has no part in what it does. -/
theorem iterate_step_numbered (p : Process) (id : ProcessId) (k : Nat) :
    step^[k] { p with id := id } = { step^[k] p with id := id } := by
  have commutes : Function.Semiconj (fun p : Process => { p with id := id }) step step :=
    fun _ => rfl
  exact (commutes.iterate_right k p).symm

theorem survives_numbered (id : ProcessId) :
    ({ p with id := id } : Process).Survives k ↔ p.Survives k := by
  simp only [Survives, iterate_step_numbered]
  rfl

end Process

section

variable {submission : Submission} {id : ProcessId} {k : Nat} {ending : Ending} {r : Record}

/-- Whoever comes to its own end leaves the outcome of its submission, whatever its number. -/
theorem anonymous_eq_outcome (exceedable : submission.budget ≠ Cycles.limit)
    (ends : (submission.process id).Ends k ending) (natural : ending ≠ .killed)
    (status : { r.status with state := .new } =
      (Process.step^[k] (submission.process id)).status)
    (running : r.status.state = .running) (ended : r.ending = ending) :
    r.anonymous = submission.outcome := by
  have numbered : submission.process id = { submission.process 0 with id := id } := rfl
  cases ends with
  | killed => exact absurd rfl natural
  | @last j _ survives verdict =>
    rw [numbered, Process.survives_numbered] at survives
    rw [numbered, Process.iterate_step_numbered] at verdict status
    have long : j < (submission.process 0).workLimit := by
      by_contra short
      refine Process.not_survives_workLimit (p := submission.process 0) exceedable ?_
      exact fun i hi => survives i (hi.trans_le (Nat.le_of_not_lt short))
    obtain ⟨process, last⟩ := Process.slice_of_ends survives verdict long
    have unnumbered : (Process.step^[j + 1] (submission.process 0)).id = 0 :=
      Process.iterate_step_id _ _
    have same : { r.status with id := 0 } =
        { (Process.step^[j + 1] (submission.process 0)).status with state := .running } := by
      calc { r.status with id := 0 }
          = { { r.status with state := .new } with id := 0, state := .running } := by rw [← running]
        _ = _ := by
          rw [status]
          simp only [Process.status, unnumbered]
    rw [Record.anonymous, Submission.outcome, same, process, last, ended]
    rfl

end

namespace Scheduler

variable {s : Scheduler} {config : Config} {granted : List Submission} {events : List Event}

/-- When nobody is left and nobody was killed, the records are the outcomes of the submissions. -/
theorem History.outcomes (h : History config granted events s)
    (exceedable : ∀ submission ∈ granted, submission.budget ≠ Cycles.limit)
    (natural : ∀ r ∈ Event.records events, r.ending ≠ .killed) (nobody : s.processes = []) :
    ((Event.records events).map Record.anonymous).Perm (granted.map Submission.outcome) := by
  have faithful := h.faithful
  have own : ∀ r ∈ Event.records events,
      some r.anonymous = granted[r.status.id]?.map Submission.outcome := by
    intro r hr
    obtain ⟨-, -, submission, made, status, ends⟩ := faithful.recorded r hr
    rw [made, Option.map_some]
    exact congrArg some (anonymous_eq_outcome (exceedable _ (List.mem_of_getElem? made)) ends
      (natural r hr) status (h.state_running r hr (natural r hr)) rfl)
  have perm := h.accounted
  rw [nobody, List.map_nil, List.append_nil, ← faithful.count] at perm
  -- The records and the submissions are told apart by their numbers only: what stands under each
  -- number is the same outcome, so the permutation of the numbers is one of the outcomes.
  have submitted : (List.range granted.length).map
      (fun id => granted[id]?.map Submission.outcome) =
        (granted.map Submission.outcome).map some := by
    refine List.ext_getElem (by simp) fun id h _ => ?_
    rw [List.length_map, List.length_range] at h
    simp [List.getElem?_eq_getElem h]
  have left : ((Event.records events).map fun r => r.status.id).map
      (fun id => granted[id]?.map Submission.outcome) =
        ((Event.records events).map Record.anonymous).map some := by
    rw [List.map_map, List.map_map]
    exact (List.map_congr_left own).symm
  have both := perm.map fun id => granted[id]?.map Submission.outcome
  rw [submitted, left] at both
  exact (List.map_perm_map_iff (Option.some_injective _)).mp both

/-! ## Schedulers left to themselves -/

/-- Limits under which so many submissions are granted and come to their ends. -/
structure Suffices (config : Config) (count : Nat) : Prop where
  slice : 1 ≤ config.slice
  room : 1 ≤ config.maxReady
  capacity : count ≤ config.maxProcesses

/-- Nobody was killed so far, and nobody has a budget that can never be exceeded. -/
structure Undisturbed (config : Config) (granted : List Submission) (events : List Event)
    (s : Scheduler) : Prop where
  history : History config granted events s
  exceedable : ∀ submission ∈ granted, submission.budget ≠ Cycles.limit
  natural : ∀ r ∈ Event.records events, r.ending ≠ .killed

namespace Undisturbed

theorem start (config : Config) : Undisturbed config [] [] (init config) where
  history := .start
  exceedable := fun _ h => absurd h List.not_mem_nil
  natural := fun _ h => absurd h List.not_mem_nil

theorem create (h : Undisturbed config granted events s) {submission : Submission}
    (room : s.isFull = false) (exceedable : submission.budget ≠ Cycles.limit) :
    Undisturbed config (granted ++ [submission])
      (events ++ [.created s.table.nextId submission.name submission.user])
      (s.create submission) where
  history := h.history.create submission room
  exceedable := by
    intro other hother
    rcases List.mem_append.mp hother with before | last
    · exact h.exceedable other before
    · rwa [List.mem_singleton.mp last]
  natural := by
    rw [Event.records_concat _ rfl]
    exact h.natural

theorem moves {es : List Event} {t : Scheduler} (h : Undisturbed config granted events s)
    (moves : Moves s es t) : Undisturbed config granted (events ++ es) t where
  history := h.history.moves moves
  exceedable := h.exceedable
  natural := by
    intro r hr
    rw [Event.records_append] at hr
    rcases List.mem_append.mp hr with before | after
    · exact h.natural r before
    · exact (moves.accounted h.history.placed).2 r after

theorem isFull_eq_false (h : Undisturbed config granted events s)
    (slots : granted.length < config.maxProcesses) : s.isFull = false := by
  rw [h.history.faithful.count, ← h.history.config_eq] at slots
  simpa [isFull] using slots

/-- Whoever is alive has the budget that was asked for. -/
theorem bounded (h : Undisturbed config granted events s) : s.Bounded := by
  intro id p found
  obtain ⟨submission, made, bare, -⟩ := h.history.faithful.alive id p found
  have budget : p.budget = submission.budget := by
    rw [Process.iterate_step_eq] at bare
    exact congrArg Process.budget bare
  rw [budget]
  exact h.exceedable submission (List.mem_of_getElem? made)

theorem drainable (h : Undisturbed config granted events s) {count : Nat}
    (limits : Suffices config count) : s.Drainable := by
  constructor
  case placed => exact h.history.placed
  case bounded => exact h.bounded
  case slice => exact h.history.config_eq ▸ limits.slice
  case room => exact h.history.config_eq ▸ limits.room

/-- Letting ticks pass until nothing is left comes to an end. -/
theorem exists_runAll (h : Undisturbed config granted events s) {count : Nat}
    (limits : Suffices config count) :
    ∃ t, s.runAll = some t ∧ Undisturbed config granted (events ++ t.events) t.value ∧
      t.value.processes = [] := by
  have drainable := h.drainable limits
  obtain ⟨n, bound, loop, -⟩ := exists_loop drainable
  have enough : n ≤ s.tickLimit := bound.trans (work_add_two_le_tickLimit drainable.slice)
  have moves := moves_ticks n s
  have nobody := (moves.placed drainable.placed).processes_eq_nil loop.2
  exact ⟨ticks n s, loop.runWithin_eq enough [], h.moves moves, nobody⟩

end Undisturbed

/-! ## Requests spread over time -/

/-- Requests that make some submissions in their order, with ticks before, between and after
them. -/
def Spreads (requests : List Request) (submissions : List Submission) : Prop :=
  requests.filter (· ≠ .tick) = submissions.map .submitImage

/-- The first request is a tick or the first submission. -/
theorem Spreads.of_cons {request : Request} {rest : List Request} {submissions : List Submission}
    (h : Spreads (request :: rest) submissions) :
    request = .tick ∧ Spreads rest submissions ∨
      ∃ submission more, request = .submitImage submission ∧ submissions = submission :: more ∧
        Spreads rest more := by
  by_cases ticks : request = .tick
  · subst ticks
    exact .inl ⟨rfl, h⟩
  · rw [Spreads, List.filter_cons_of_pos (by simpa using ticks)] at h
    cases submissions with
    | nil => cases h
    | cons submission more =>
      obtain ⟨first, later⟩ := List.cons.inj h
      exact .inr ⟨submission, more, first, rfl, later⟩

section

variable {σ : Type} {host : Host σ} {before : Simulation σ} {requests : List Request}

/-- All requests are answered, and when they are, those submissions have been granted and nobody is
left of them. The records come out of the simulation, and the world is offered them. -/
def Completes (host : Host σ) (config : Config) (granted : List Submission) (events : List Event)
    (before : Simulation σ) (requests : List Request) : Prop :=
  ∃ after replies outputs es,
    before.performAll host requests = some (after, replies, outputs) ∧
    Undisturbed config granted (events ++ es) after.scheduler ∧ after.scheduler.processes = [] ∧
    Output.records outputs = Event.records es ∧
    after.world = host.keepAll before.world (Event.records es)

theorem Completes.nil (h : Undisturbed config granted events before.scheduler)
    (nobody : before.scheduler.processes = []) :
    Completes host config granted events before [] :=
  ⟨before, [], [], [], rfl, by simpa using h, nobody, rfl, rfl⟩

theorem Completes.cons {request : Request} {t : Traced (Reply × Scheduler)}
    (answer : before.scheduler.perform (host.load before.world) request = some t)
    (later : Completes host config granted (events ++ t.events)
      ⟨t.value.2, (host.settle before.world (Event.outputs t.events)).1⟩ requests) :
    Completes host config granted events before (request :: requests) := by
  obtain ⟨after, replies, outputs, es, answers, undisturbed, nobody, records, world⟩ := later
  refine ⟨after, _, _, t.events ++ es, Simulation.performAll_cons answer answers, ?_, nobody,
    ?_, ?_⟩
  · rw [← List.append_assoc]
    exact undisturbed
  · rw [Output.records_append, host.records_settle, Output.records_events, records,
      Event.records_append]
  · rw [world, host.world_settle, Output.records_events, Event.records_append,
      host.keepAll_append]

/-- Submissions that are spread over time and left to themselves are all granted, and in the end
nobody is left of them. -/
theorem Undisturbed.completes {submissions : List Submission}
    (h : Undisturbed config granted events before.scheduler)
    (limits : Suffices config (granted.length + submissions.length))
    (exceedable : ∀ submission ∈ submissions, submission.budget ≠ Cycles.limit)
    (spreads : Spreads requests submissions) :
    Completes host config (granted ++ submissions) events before (requests ++ [.runAll]) := by
  induction requests generalizing before granted events submissions with
  | nil =>
    obtain rfl : submissions = [] := List.map_eq_nil_iff.mp spreads.symm
    obtain ⟨t, ran, undisturbed, nobody⟩ := h.exists_runAll limits
    have answer : before.scheduler.perform (host.load before.world) .runAll =
        some ⟨(.done, t.value), t.events⟩ := by rw [perform, ran, Option.map_some]
    rw [List.append_nil]
    exact .cons answer (.nil undisturbed nobody)
  | cons request rest ih =>
    -- A tick and a creation both leave a scheduler that nobody has disturbed.
    rcases spreads.of_cons with ⟨rfl, later⟩ | ⟨submission, more, rfl, rfl, later⟩
    · have ticked := h.moves (moves_tick before.scheduler)
      exact .cons (perform_tick _ _) (ih ticked limits exceedable later)
    · have capacity := limits.capacity
      rw [List.length_cons] at capacity
      have room := h.isFull_eq_false (by omega)
      have created := h.create room (exceedable submission List.mem_cons_self)
      rw [← List.singleton_append, ← List.append_assoc]
      refine .cons (perform_submitImage_of_room room _ _) (ih created ?_ ?_ later)
      · rwa [List.length_append, List.length_singleton, Nat.add_assoc, Nat.add_comm 1]
      · exact fun other hother => exceedable other (List.mem_cons_of_mem _ hother)

end

/-- What becomes of submissions that are made to a fresh scheduler and left to themselves stands in
the submissions. -/
theorem exists_outcomes {σ : Type} (host : Host σ) (world : σ) {submissions : List Submission}
    {requests : List Request} (limits : Suffices config submissions.length)
    (exceedable : ∀ submission ∈ submissions, submission.budget < Cycles.limit)
    (spreads : Spreads requests submissions) :
    ∃ after replies outputs,
      (⟨init config, world⟩ : Simulation σ).performAll host (requests ++ [.runAll]) =
        some (after, replies, outputs) ∧
      after.world = host.keepAll world (Output.records outputs) ∧
      ((Output.records outputs).map Record.anonymous).Perm
        (submissions.map Submission.outcome) := by
  have fresh := Undisturbed.start config
  have enough : Suffices config (([] : List Submission).length + submissions.length) := by
    rwa [List.length_nil, Nat.zero_add]
  have exceedable' : ∀ submission ∈ submissions, submission.budget ≠ Cycles.limit :=
    fun submission h => UInt32.ne_of_lt (exceedable submission h)
  have completes : Completes host config submissions [] ⟨init config, world⟩
      (requests ++ [.runAll]) := Undisturbed.completes fresh enough exceedable' spreads
  obtain ⟨after, replies, outputs, es, answers, undisturbed, nobody, records, offered⟩ := completes
  refine ⟨after, replies, outputs, answers, ?_, ?_⟩
  · rw [records]
    exact offered
  · rw [records]
    exact undisturbed.history.outcomes undisturbed.exceedable undisturbed.natural nobody

/-- The outcomes of submissions depend neither on their order nor on the limits of the scheduler nor
on the ticks between them. -/
theorem outcomes_perm {σ τ : Type} (host : Host σ) (host' : Host τ) (world : σ) (world' : τ)
    {config config' : Config} {submissions submissions' : List Submission}
    {requests requests' : List Request} (perm : submissions.Perm submissions')
    (exceedable : ∀ submission ∈ submissions, submission.budget < Cycles.limit)
    (limits : Suffices config submissions.length) (limits' : Suffices config' submissions.length)
    (spreads : Spreads requests submissions) (spreads' : Spreads requests' submissions') :
    ∃ after replies outputs after' replies' outputs',
      (⟨init config, world⟩ : Simulation σ).performAll host (requests ++ [.runAll]) =
        some (after, replies, outputs) ∧
      after.world = host.keepAll world (Output.records outputs) ∧
      (⟨init config', world'⟩ : Simulation τ).performAll host' (requests' ++ [.runAll]) =
        some (after', replies', outputs') ∧
      after'.world = host'.keepAll world' (Output.records outputs') ∧
      ((Output.records outputs).map Record.anonymous).Perm
        ((Output.records outputs').map Record.anonymous) := by
  rw [perm.length_eq] at limits'
  have exceedable' : ∀ submission ∈ submissions', submission.budget < Cycles.limit :=
    fun submission h => exceedable submission (perm.mem_iff.mpr h)
  obtain ⟨after, replies, outputs, answers, offered, own⟩ :=
    exists_outcomes host world limits exceedable spreads
  obtain ⟨after', replies', outputs', answers', offered', own'⟩ :=
    exists_outcomes host' world' limits' exceedable' spreads'
  refine ⟨after, replies, outputs, after', replies', outputs', answers, offered, answers',
    offered', ?_⟩
  exact own.trans ((perm.map Submission.outcome).trans own'.symm)

/-- Three submissions, one of them refused by the first world when its record is offered. With short
slices, one ready process at a time and ticks between the submissions they end in one order; in
another order of submission, with longer slices and ticks before and after, they end in another. -/
theorem outcomes_perm_of_loops :
    ∃ (stop short long : Submission) (after : Simulation Archive) (replies : List Reply)
      (outputs : List Output) (after' : Simulation Archive) (replies' : List Reply)
      (outputs' : List Output),
      (⟨init { slice := 1, maxReady := 1 }, { refused := [("stop", .notFound)] }⟩ :
        Simulation Archive).performAll Archive.host
          [.submitImage stop, .tick, .submitImage long, .tick, .submitImage short, .runAll] =
        some (after, replies, outputs) ∧
      (⟨init { slice := 2, maxProcesses := 3 }, {}⟩ : Simulation Archive).performAll Archive.host
          [.tick, .submitImage short, .submitImage long, .submitImage stop, .tick, .runAll] =
        some (after', replies', outputs') ∧
      (Output.records outputs).map (fun r => (r.status.id, r.status.name, r.ending)) =
        [(0, "stop", .completed), (2, "short", .timeLimit), (1, "long", .timeLimit)] ∧
      (Output.records outputs').map (fun r => (r.status.id, r.status.name, r.ending)) =
        [(0, "short", .timeLimit), (2, "stop", .completed), (1, "long", .timeLimit)] ∧
      ((Output.records outputs).map Record.anonymous).Perm
        ((Output.records outputs').map Record.anonymous) := by
  let stop : Submission := ⟨1, .low, 0, "stop", []⟩
  let short : Submission := ⟨1, .normal, 1, "short", loopImage⟩
  let long : Submission := ⟨1, .high, 4, "long", loopImage⟩
  have perm : [stop, long, short].Perm [short, long, stop] := by decide
  have limits : Suffices { slice := 1, maxReady := 1 } 3 := ⟨by decide, by decide, by decide⟩
  have limits' : Suffices { slice := 2, maxProcesses := 3 } 3 := ⟨by decide, by decide, by decide⟩
  have spreads : Spreads [.submitImage stop, .tick, .submitImage long, .tick, .submitImage short]
      [stop, long, short] := rfl
  have spreads' : Spreads [.tick, .submitImage short, .submitImage long, .submitImage stop, .tick]
      [short, long, stop] := rfl
  obtain ⟨after, replies, outputs, after', replies', outputs', answers, -, answers', -, same⟩ :=
    outcomes_perm Archive.host Archive.host { refused := [("stop", .notFound)] } {} perm
      (by decide) limits limits' spreads spreads'
  refine ⟨stop, short, long, after, replies, outputs, after', replies', outputs', answers, answers',
    ?_, ?_, same⟩
  · have listed := congrArg (Option.map fun t => (Output.records t.2.2).map fun r =>
      (r.status.id, r.status.name, r.ending)) answers
    exact Option.some.inj (listed.symm.trans (by decide))
  · have listed := congrArg (Option.map fun t => (Output.records t.2.2).map fun r =>
      (r.status.id, r.status.name, r.ending)) answers'
    exact Option.some.inj (listed.symm.trans (by decide))

end Scheduler

end Timeshare
