import Mathlib
import Timeshare.Proofs.Console.Session
import Timeshare.Proofs.Scheduler.Lookup
import Timeshare.Proofs.Text.Words

/-!
# Lines that change nothing

Blank lines, lines that are no command, questions, and requests to kill who is not there leave the
console and the world as they were (`Console.Idle.interpret`). So such a line can be put into a
script, or left out, without any effect on the other lines: each of them is read in the same state,
and says the same (`readEach_of_end`). Of any other line at most one request to the scheduler comes
(`feed_cases`), so the state stays one that requests lead to. `unnoticed_of_idle` puts this together.
-/

namespace Timeshare

namespace Console

variable {c d : Console} {line : String} {load : String → Except Fault (List UInt8)}
  {outputs : List Output} {flow : Flow}

/-- Somebody is listed under an integer. -/
def Lists (c : Console) (n : Int) : Prop := ∃ status ∈ c.scheduler.statuses, (status.id : Int) = n

instance (c : Console) (n : Int) : Decidable (c.Lists n) :=
  inferInstanceAs (Decidable (∃ status ∈ _, _))

/-- A line that asks for nothing to be done, or for the end of nobody. -/
def Idle (c : Console) (line : String) : Prop :=
  match Command.parse line with
  | .error _ | .ok none | .ok (some .list) | .ok (some (.inspect _)) => True
  | .ok (some (.kill n)) => ¬ c.Lists n
  | .ok (some _) => False

/-- A question that has an answer. -/
def Tells (c : Console) (line : String) : Prop :=
  match Command.parse line with
  | .ok (some .list) => True
  | .ok (some (.inspect n)) => c.Lists n
  | _ => False

/-- A line that begins with the word of a command and is none, or that names nobody. -/
def Fails (c : Console) (line : String) : Prop :=
  match Command.parse line with
  | .error (.unknownCommand _) => False
  | .error _ => True
  | .ok (some (.inspect n)) | .ok (some (.kill n)) => ¬ c.Lists n
  | _ => False

/-- What comes of a line that asks for nothing to be done: nothing but an answer or one line of
complaint. -/
structure Answers (c : Console) (line : String) (outputs : List Output) : Prop where
  said : Output.said outputs ≠ "" → c.Tells line
  complained : c.Fails line →
    ∃ text, OneLine text ∧ Output.complained outputs = text ++ "\n"
  silent : ¬ c.Fails line → Output.complained outputs = ""
  records : Output.records outputs = []

/-! ## One line -/

theorem answers_say (tells : c.Tells line) (succeeds : ¬ c.Fails line) (text : String) :
    c.Answers line [.say text] where
  said := fun _ => tells
  complained := fun fails => absurd fails succeeds
  silent := fun _ => by simp [Output.complained]
  records := rfl

theorem answers_complain (fails : c.Fails line) {text : String} (single : OneLine text) :
    c.Answers line [.complain (text ++ "\n")] where
  said := fun said => absurd (by simp [Output.said]) said
  complained := fun _ => ⟨text, single, by simp [Output.complained]⟩
  silent := fun succeeds => absurd fails succeeds
  records := rfl

/-- Nothing said and nothing complained about. -/
theorem answers_of_silence (succeeds : ¬ c.Fails line) (said : Output.said outputs = "")
    (complained : Output.complained outputs = "") (records : Output.records outputs = []) :
    c.Answers line outputs where
  said := fun something => absurd said something
  complained := fun fails => absurd fails succeeds
  silent := fun _ => complained
  records := records

theorem answers_notFound (fails : c.Fails line) (n : Int) : c.Answers line [notFound n] := by
  have single : OneLine ("Process " ++ toString n ++ " not found.") := by
    rw [oneLine_append, oneLine_append]
    exact ⟨⟨by decide, oneLine_number n⟩, by decide⟩
  have text : notFound n = .complain ("Process " ++ toString n ++ " not found." ++ "\n") := by
    simp [notFound, String.append_assoc]
  rw [text]
  exact answers_complain fails single

theorem oneLine_message {e : CommandError} (known : ∀ name, e ≠ .unknownCommand name) :
    OneLine e.message := by
  cases e with
  | usage verb => cases verb <;> decide
  | badArguments => decide
  | unknownCommand name => exact absurd rfl (known name)

theorem lists_iff (placed : c.scheduler.Placed) {n : Int} :
    c.Lists n ↔ ∃ p, c.scheduler.lookup n = .ok p := by
  simp [Lists, placed.lookup_eq_ok_iff, Scheduler.statuses, Process.status]

/-- Nobody can be killed who is not listed. -/
theorem ask_kill (placed : c.scheduler.Placed) {n : Int} (absent : ¬ c.Lists n)
    (load : String → Except Fault (List UInt8)) :
    c.ask load (.kill n) = some (c, [notFound n], .proceed) := by
  rw [lists_iff placed, not_exists] at absent
  simp [ask, Scheduler.perform, Scheduler.kill_eq_error absent, Reply.ofKill, Reply.isGranted,
    complaint, Event.outputs]

/-- A line that asks for nothing to be done leaves the console as it is. -/
theorem Idle.interpret (idle : c.Idle line) (placed : c.scheduler.Placed) :
    ∃ outputs, (∀ load, c.interpret load line = some (c, outputs, .proceed)) ∧
      c.Answers line outputs := by
  rw [Idle] at idle
  simp only [Console.interpret]
  cases parsed : Command.parse line with
  | error e =>
    cases e with
    | unknownCommand name =>
      have succeeds : ¬ c.Fails line := by simp [Fails, parsed]
      exact ⟨_, fun _ => rfl, answers_of_silence succeeds rfl rfl rfl⟩
    | usage | badArguments =>
      have fails : c.Fails line := by simp [Fails, parsed]
      exact ⟨_, fun _ => rfl, answers_complain fails (oneLine_message (by simp))⟩
  | ok read =>
    rw [parsed] at idle
    cases read with
    | none =>
      have succeeds : ¬ c.Fails line := by simp [Fails, parsed]
      exact ⟨_, fun _ => rfl, answers_of_silence succeeds rfl rfl rfl⟩
    | some command =>
      cases command with
      | list =>
        have tells : c.Tells line := by simp [Tells, parsed]
        have succeeds : ¬ c.Fails line := by simp [Fails, parsed]
        exact ⟨_, fun _ => rfl, answers_say tells succeeds _⟩
      | inspect n =>
        simp only [execute]
        cases found : c.scheduler.lookup n with
        | ok p =>
          have listed : c.Lists n := (lists_iff placed).mpr ⟨p, found⟩
          have tells : c.Tells line := by simpa [Tells, parsed] using listed
          have succeeds : ¬ c.Fails line := by simpa [Fails, parsed] using listed
          exact ⟨_, fun _ => rfl, answers_say tells succeeds _⟩
        | error refusal =>
          have fails : c.Fails line := by simp [Fails, parsed, lists_iff placed, found]
          exact ⟨_, fun _ => rfl, answers_notFound fails n⟩
      | kill n =>
        have fails : c.Fails line := by simpa [Fails, parsed] using idle
        exact ⟨_, ask_kill placed idle, answers_notFound fails n⟩
      | submit | run | runAll | exit => exact absurd idle id

/-! ## What a line asks for -/

/-- What a line asks of the scheduler. -/
def request? (line : String) : Option Request :=
  match Command.parse line with
  | .ok (some (.submit user priority budget file)) =>
    some (.submit user (Priority.ofIndex priority) (Cycles.nearest budget) file)
  | .ok (some (.kill id)) => some (.kill id)
  | .ok (some .run) => some .tick
  | .ok (some .runAll) => some .runAll
  | _ => none

theorem records_complaint (request : Request) : Output.records (complaint request) = [] := by
  cases request <;> rfl

/-- A line that asks for something takes the scheduler to where that leads. -/
theorem ask_cases {request : Request} (asked : c.ask load request = some (d, outputs, flow)) :
    ∃ answer, c.scheduler.perform load request = some answer ∧
      d = { c with scheduler := answer.value.2 } ∧
      Output.records outputs = Event.records answer.events := by
  obtain ⟨answer, performed, same⟩ := Option.map_eq_some_iff.mp asked
  cases same
  refine ⟨answer, performed, rfl, ?_⟩
  rw [Output.records_append, Output.records_events]
  split
  · exact List.append_nil _
  · rw [records_complaint, List.append_nil]

/-- A line asks nothing of the scheduler, or takes it to where its request leads. -/
theorem interpret_cases (interpreted : c.interpret load line = some (d, outputs, flow)) :
    d = c ∧ Output.records outputs = [] ∨
    ∃ request answer, request? line = some request ∧
      c.scheduler.perform load request = some answer ∧
      d = { c with scheduler := answer.value.2 } ∧
      Output.records outputs = Event.records answer.events := by
  rw [interpret] at interpreted
  split at interpreted
  case h_2 command parsed =>
    cases command with
    | submit | kill | run | runAll =>
      obtain ⟨answer, answered⟩ := ask_cases interpreted
      exact .inr ⟨_, answer, by rw [request?, parsed], answered⟩
    | list | exit =>
      cases Option.some.inj interpreted
      exact .inl ⟨rfl, rfl⟩
    | inspect n =>
      rw [execute] at interpreted
      split at interpreted <;> cases Option.some.inj interpreted <;> exact .inl ⟨rfl, rfl⟩
  all_goals
    cases Option.some.inj interpreted
    exact .inl ⟨rfl, rfl⟩

end Console

namespace Session

variable {σ : Type} {host : Host σ} {s t u : Session σ} {a : List UInt8} {line : String}
  {config : Config} {before : List (List Output)}

/-! ## Line by line -/

/-- Reads lines as `feedAll` does, with the output of each line by itself. -/
def readEach (host : Host σ) (s : Session σ) :
    List (List UInt8) → Option (Session σ × List (List Output) × Closing)
  | [] => some (s, [], .endOfInput)
  | line :: rest =>
    match s.feed host line with
    | none => none
    | some (s, outputs, .exit) => some (s, [outputs], .exited)
    | some (s, outputs, .failed fault) => some (s, [outputs], .failed fault)
    | some (s, outputs, .proceed) =>
      (s.readEach host rest).map fun (s, others, closing) => (s, outputs :: others, closing)

/-- A whole input, with the output of each line by itself. -/
def transcript (host : Host σ) (s : Session σ) (input : List UInt8) :
    Option (Session σ × List (List Output) × Closing) :=
  s.readEach host (Lines.ofBytes input)

/-- Puts the output of some lines before that of others. -/
def behind (before : List (List Output)) :
    Session σ × List (List Output) × Closing → Session σ × List (List Output) × Closing
  | (s, others, closing) => (s, before ++ others, closing)

theorem behind_comp_behind (a b : List (List Output)) :
    behind (σ := σ) a ∘ behind b = behind (a ++ b) := by
  funext ⟨s, others, closing⟩
  simp [behind]

theorem feedAll_eq_readEach (host : Host σ) (s : Session σ) (lines : List (List UInt8)) :
    s.feedAll host lines = (s.readEach host lines).map fun (s, each, closing) =>
      (s, each.flatten, closing) := by
  induction lines generalizing s with
  | nil => rfl
  | cons line rest ih =>
    rw [feedAll, readEach]
    rcases s.feed host line with _ | ⟨t, outputs, _ | _ | fault⟩
    case some.proceed =>
      simp only [ih, Option.map_map]
      rfl
    all_goals simp

/-- The first of some lines ends the session, or the others are read where it leads to. -/
theorem exists_feed_of_readEach {bytes : List UInt8} {rest : List (List UInt8)}
    {each : List (List Output)} {closing : Closing}
    (read : s.readEach host (bytes :: rest) = some (t, each, closing)) :
    ∃ u outputs flow, s.feed host bytes = some (u, outputs, flow) ∧
      (u = t ∧ closing ≠ .endOfInput ∨
        flow = .proceed ∧ ∃ others, u.readEach host rest = some (t, others, closing) ∧
          each = outputs :: others) := by
  rw [readEach] at read
  rcases fed : s.feed host bytes with _ | ⟨u, outputs, flow⟩ <;> rw [fed] at read
  · cases read
  · refine ⟨u, outputs, flow, rfl, ?_⟩
    cases flow with
    | proceed =>
      obtain ⟨⟨w, others, last⟩, remaining, same⟩ := Option.map_eq_some_iff.mp read
      cases same
      exact .inr ⟨rfl, others, remaining, rfl⟩
    | exit | failed =>
      cases read
      exact .inl ⟨rfl, nofun⟩

theorem readEach_cons_of_proceed {bytes : List UInt8} {outputs : List Output}
    (proceeds : s.feed host bytes = some (t, outputs, .proceed)) (rest : List (List UInt8)) :
    s.readEach host (bytes :: rest) = (t.readEach host rest).map (behind [outputs]) := by
  rw [readEach, proceeds]
  rfl

/-- Lines behind some that were read to their end are read where those led to. -/
theorem readEach_of_end {first : List (List UInt8)}
    (read : s.readEach host first = some (t, before, .endOfInput)) (rest : List (List UInt8)) :
    s.readEach host (first ++ rest) = (t.readEach host rest).map (behind before) := by
  induction first generalizing s before with
  | nil =>
    cases Option.some.inj read
    rw [List.nil_append]
    cases t.readEach host rest <;> rfl
  | cons bytes later ih =>
    obtain ⟨u, outputs, flow, fed, ⟨-, ended⟩ | ⟨rfl, others, remaining, rfl⟩⟩ :=
      exists_feed_of_readEach read
    · exact absurd rfl ended
    · rw [List.cons_append, readEach_cons_of_proceed fed, ih remaining, Option.map_map]
      rfl

/-! ## States that can be reached -/

/-- The scheduler of a session is in a state that some requests lead to. -/
def Reached (config : Config) (s : Session σ) : Prop :=
  ∃ granted events, Scheduler.Run config granted events s.console.scheduler

theorem Reached.placed (reached : s.Reached config) : s.console.scheduler.Placed := by
  obtain ⟨granted, events, run⟩ := reached
  exact run.history.placed

/-- A line leaves a session as it is, or its request is answered and the world is offered the
records that this brings about. -/
theorem feed_cases {bytes : List UInt8} {outputs : List Output} {flow : Flow}
    (fed : s.feed host bytes = some (t, outputs, flow)) :
    t = s ∧ Output.records outputs = [] ∨
    ∃ text request answer, Lines.text? bytes = some text ∧ Console.request? text = some request ∧
      s.console.scheduler.perform (host.load s.world) request = some answer ∧
      t = ⟨{ s.console with scheduler := answer.value.2 },
        host.keepAll s.world (Event.records answer.events)⟩ ∧
      Output.records outputs = Event.records answer.events := by
  rw [feed] at fed
  split at fed
  · cases Option.some.inj fed
    exact .inl ⟨rfl, rfl⟩
  case h_2 text readable =>
    obtain ⟨⟨console, said, f⟩, interpreted, same⟩ := Option.map_eq_some_iff.mp fed
    obtain ⟨rfl, rfl⟩ : t = ⟨console, (host.settle s.world said).1⟩ ∧
        outputs = (host.settle s.world said).2 := by
      cases same
      exact ⟨rfl, rfl⟩
    rw [host.records_settle, host.world_settle]
    rcases Console.interpret_cases interpreted with
      ⟨rfl, quiet⟩ | ⟨request, answer, asked, performed, rfl, announced⟩
    · rw [quiet]
      exact .inl ⟨rfl, rfl⟩
    · rw [announced]
      exact .inr ⟨text, request, answer, readable, asked, performed, rfl, rfl⟩

/-- Whatever a line asks for, it leads on to a state that can be reached. -/
theorem Reached.feed (reached : s.Reached config) {bytes : List UInt8} {outputs : List Output}
    {flow : Flow} (fed : s.feed host bytes = some (t, outputs, flow)) : t.Reached config := by
  rcases feed_cases fed with ⟨rfl, -⟩ | ⟨_, request, answer, -, -, performed, rfl, -⟩
  · exact reached
  · obtain ⟨granted, events, run⟩ := reached
    exact ⟨_, _, run.serve _ request performed⟩

theorem Reached.readEach (reached : s.Reached config) {lines : List (List UInt8)}
    {each : List (List Output)} {closing : Closing}
    (read : s.readEach host lines = some (t, each, closing)) : t.Reached config := by
  induction lines generalizing s each with
  | nil =>
    cases Option.some.inj read
    exact reached
  | cons bytes rest ih =>
    obtain ⟨u, outputs, flow, fed, ⟨rfl, -⟩ | ⟨-, others, remaining, -⟩⟩ :=
      exists_feed_of_readEach read
    · exact reached.feed fed
    · exact ih (reached.feed fed) remaining

/-! ## The whole of it -/

/-- How a line shows that is put in behind some input, which leads to a session `t`. -/
structure Unnoticed (host : Host σ) (s : Session σ) (a : List UInt8) (t : Session σ)
    (before : List (List Output)) (line : String) (answer : List Output) : Prop where
  /-- A session says all that its lines say, one after another. -/
  together : ∀ u input, run host u input = (transcript host u input).map
    fun (v, each, closing) => (v, each.flatten, closing)
  /-- Without the line whatever comes behind that input is read in the session `t`. -/
  absent : ∀ b, s.transcript host (a ++ b) = (t.transcript host b).map (behind before)
  /-- With it this is so too, and no line says anything else, but for the one that was put in. -/
  present : ∀ b, s.transcript host (a ++ (Lines.ofText line ++ 10 :: b)) =
    (t.transcript host b).map (behind (before ++ [answer]))
  /-- The line may also be the last one and have no line feed behind it. -/
  last : line ≠ "" → s.transcript host (a ++ Lines.ofText line) =
    some (t, before ++ [answer], .endOfInput)

theorem interpret_eq_of_words {c : Console} {kept : String} (same : words kept = words line)
    (load : String → Except Fault (List UInt8)) :
    c.interpret load kept = c.interpret load line := by
  simp only [Console.interpret, Command.parse, same]

/-- A line that asks for nothing to be done, put in where the input before it was read to its end,
changes nothing for the other lines, and says no more than an answer or a line of complaint. -/
theorem unnoticed_of_idle (reached : s.Reached config) (whole : Lines.Whole a)
    (read : s.transcript host a = some (t, before, .endOfInput)) (single : OneLine line)
    (idle : t.console.Idle line) :
    ∃ answer, t.console.Answers line answer ∧ Unnoticed host s a t before line answer := by
  obtain ⟨answer, interpreted, answers⟩ := idle.interpret (reached.readEach read).placed
  have fed : ∀ bytes kept, Lines.text? bytes = some kept → words kept = words line →
      t.feed host bytes = some (t, answer, .proceed) := by
    intro bytes kept text same
    simp only [feed, text, interpret_eq_of_words same, interpreted, Option.map_some,
      host.settle_of_quiet t.world answers.records]
  refine ⟨answer, answers, ?_⟩
  constructor
  case together =>
    intro u input
    rw [run, feedAll_eq_readEach]
    rfl
  case absent =>
    intro b
    rw [transcript, Lines.ofBytes_append whole, readEach_of_end read]
    rfl
  case present =>
    intro b
    obtain ⟨kept, text, same⟩ := Lines.text?_trim_ofText line
    have same_words : words kept = words line := by
      rcases same with rfl | split
      · rfl
      · exact (words_concat (by decide) split).symm
    rw [transcript, Lines.ofBytes_append whole, Lines.ofBytes_ofText_append single,
      readEach_of_end read, readEach_cons_of_proceed (fed _ kept text same_words), Option.map_map,
      behind_comp_behind]
    rfl
  case last =>
    intro filled
    have proceeds := fed _ line (Lines.text?_ofText line) rfl
    rw [transcript, Lines.ofBytes_append whole, Lines.ofBytes_ofText filled single,
      readEach_of_end read, readEach_cons_of_proceed proceeds]
    rfl

/-- Behind the creation of two processes, of which one is killed, the line that asks to kill it once
more is not noticed. -/
theorem unnoticed_second_kill :
    let s : Session Archive := ⟨⟨.init {}, .human⟩, { images := [("stop", .ok [])] }⟩
    let a := Lines.ofText "sub 1 0 5 stop\nsub 1 0 5 stop\nkill 0\n"
    s.Reached {} ∧ Lines.Whole a ∧ ∃ t before answer,
      s.transcript Archive.host a = some (t, before, .endOfInput) ∧
      t.console.scheduler.processCount = 1 ∧ Command.parse "kill 0\r" = .ok (some (.kill 0)) ∧
      t.console.Idle "kill 0\r" ∧ t.console.Answers "kill 0\r" answer ∧
      Unnoticed Archive.host s a t before "kill 0\r" answer := by
  intro s a
  have reached : s.Reached {} := ⟨[], [], .start⟩
  have whole : Lines.Whole a := by decide +kernel
  have facts : (s.transcript Archive.host a).map (fun x =>
      (x.1.console.scheduler.processCount, decide (x.1.console.Lists 0), x.2.2)) =
        some (1, false, .endOfInput) := by
    decide +kernel
  obtain ⟨⟨t, before, closing⟩, read, same⟩ := Option.map_eq_some_iff.mp facts
  simp only [Prod.mk.injEq, decide_eq_false_iff_not] at same
  obtain ⟨count, absent, rfl⟩ := same
  have parsed : Command.parse "kill 0\r" = .ok (some (.kill 0)) := by decide +kernel
  have idle : t.console.Idle "kill 0\r" := by
    rw [Console.Idle, parsed]
    exact absent
  obtain ⟨answer, answers, unnoticed⟩ := unnoticed_of_idle reached whole read (by decide) idle
  exact ⟨reached, whole, t, before, answer, read, count, parsed, idle, answers, unnoticed⟩

end Session

end Timeshare
