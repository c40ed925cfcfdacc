import Mathlib
import Timeshare.Proofs.Console.Idle
import Timeshare.Proofs.Scheduler.Isolation
import Timeshare.Proofs.Storage.Records

/-!
# Sessions among files

A session reads an image when a line asks for it, and writes a record when a process ends. `Course`
keeps the moments at which lines were read; whichever way a script is read, its session has a course
(`exists_course_of_feedAll`, `exists_course_of_follow`). By induction over it every process created
has the image that its file held at the moment of its line (`Course.progress`), and so, since
processes are what they are alone, whatever is written later has no part in it. What becomes of the
files is told by the records that were taken. `filed_of_script` puts this together.
-/

namespace Timeshare

namespace Session

variable {σ : Type} {host : Host σ} {s t u : Session σ} {outputs more : List Output}
  {closing : Closing} {config : Config} {granted : List Submission} {events : List Event}

/-! ## Courses -/

/-- A session with a line before it. -/
structure Moment (σ : Type) where
  session : Session σ
  line : List UInt8

/-- What a session goes through: lines are read one after another, each where those before it
led. -/
inductive Course (host : Host σ) (s : Session σ) : List (Moment σ) → List Output → Session σ → Prop
  | start : Course host s [] [] s
  | read {moments : List (Moment σ)} {outputs more : List Output} {t u : Session σ}
      {line : List UInt8} {flow : Flow} (past : Course host s moments outputs t)
      (fed : t.feed host line = some (u, more, flow)) :
      Course host s (moments ++ [⟨t, line⟩]) (outputs ++ more) u

variable {moments further : List (Moment σ)}

theorem Course.one {line : List UInt8} {flow : Flow}
    (fed : s.feed host line = some (t, outputs, flow)) : Course host s [⟨s, line⟩] outputs t :=
  Course.start.read fed

theorem Course.trans (h : Course host s moments outputs t) (later : Course host t further more u) :
    Course host s (moments ++ further) (outputs ++ more) u := by
  induction later with
  | start => simpa using h
  | read _ fed ih =>
    rw [← List.append_assoc, ← List.append_assoc]
    exact ih.read fed

theorem exists_course_of_feedAll {lines : List (List UInt8)}
    (read : s.feedAll host lines = some (t, outputs, closing)) :
    ∃ moments, moments.map Moment.line <+: lines ∧ Course host s moments outputs t := by
  induction lines generalizing s outputs with
  | nil =>
    cases Option.some.inj read
    exact ⟨[], List.nil_prefix, .start⟩
  | cons line rest ih =>
    rw [feedAll_cons, Option.bind_eq_some_iff] at read
    obtain ⟨⟨u, first, flow⟩, fed, later⟩ := read
    cases flow with
    | proceed =>
      obtain ⟨⟨v, others, last⟩, remaining, same⟩ := Option.map_eq_some_iff.mp later
      cases same
      obtain ⟨moments, among, course⟩ := ih remaining
      exact ⟨⟨s, line⟩ :: moments, List.cons_prefix_cons.mpr ⟨rfl, among⟩,
        (Course.one fed).trans course⟩
    | exit | failed =>
      cases Option.some.inj later
      exact ⟨[⟨s, line⟩], List.cons_prefix_cons.mpr ⟨rfl, List.nil_prefix⟩, .one fed⟩

/-- One reading behind another one has a course if both have. -/
theorem exists_course_of_andThen {first : Option (Session σ × List Output × Closing)}
    {next : Session σ → Option (Session σ × List Output × Closing)}
    (begins : ∀ u said last, first = some (u, said, last) → ∃ moments, Course host s moments said u)
    (goesOn : ∀ u v said last, next u = some (v, said, last) →
      ∃ moments, Course host u moments said v)
    (read : andThen first next = some (t, outputs, closing)) :
    ∃ moments, Course host s moments outputs t := by
  rcases first with _ | ⟨u, said, _ | _ | fault⟩
  case some.endOfInput =>
    obtain ⟨⟨v, others, last⟩, remaining, same⟩ := Option.map_eq_some_iff.mp read
    cases same
    obtain ⟨moments, course⟩ := begins u said _ rfl
    obtain ⟨further, later⟩ := goesOn u _ others _ remaining
    exact ⟨_, course.trans later⟩
  case none => cases read
  all_goals exact begins _ _ _ read

/-- A script has a course even if it changes while it is read. -/
theorem exists_course_of_follow {block : σ → Nat → Except Fault (List UInt8)} {limit : Nat}
    (read : s.follow host block limit = some (t, outputs, closing)) :
    ∃ moments, Course host s moments outputs t := by
  have begins (u v : Session σ) (lines : List (List UInt8)) (said : List Output) (last : Closing)
      (read : u.feedAll host lines = some (v, said, last)) :
      ∃ moments, Course host u moments said v := by
    obtain ⟨moments, -, course⟩ := exists_course_of_feedAll read
    exact ⟨moments, course⟩
  rw [follow] at read
  generalize 0 = offset, [] = unfinished at read
  induction s, offset, unfinished using follow.go.induct block limit
      generalizing t outputs closing with
  | case1 s offset unfinished fault unreadable =>
    rw [follow.go, unreadable] at read
    cases Option.some.inj read
    exact ⟨[], .start⟩
  | case2 s offset bytes found ended =>
    rw [follow.go, found] at read
    simp only [if_pos ended] at read
    cases Option.some.inj read
    exact ⟨[], .start⟩
  | case3 s offset unfinished bytes found ended rest ih =>
    rw [follow.go, found] at read
    simp only [if_pos ended, if_neg rest] at read
    exact exists_course_of_andThen (fun u said last => begins s u _ said last)
      (fun u _ _ _ => ih u) read
  | case4 s offset unfinished bytes found goes whole rest cut ih =>
    rw [follow.go, found] at read
    simp only [if_neg goes, cut] at read
    exact exists_course_of_andThen (fun u said last => begins s u _ said last)
      (fun u _ _ _ => ih u) read

/-! ## Where processes come from -/

/-- At a moment a line asks for a process, which gets the next identifier; its image is what reading
its file yields there and then. -/
structure Submits (host : Host σ) (m : Moment σ) (id : ProcessId) (submission : Submission) :
    Prop where
  next : m.session.console.scheduler.table.nextId = id
  asked : ∃ text priority budget, Lines.text? m.line = some text ∧
    Command.parse text = .ok (some (.submit submission.user priority budget submission.name)) ∧
    submission.priority = Priority.ofIndex priority ∧ submission.budget = Cycles.nearest budget
  image : host.load m.session.world submission.name = .ok submission.image

/-- A line that makes a submission is one that asks for a process. -/
theorem parse_of_submission {load : String → Except Fault (List UInt8)} {text : String}
    {request : Request} {submission : Submission} (asked : Console.request? text = some request)
    (made : request.submission? load = some submission) :
    load submission.name = .ok submission.image ∧ ∃ priority budget,
      Command.parse text = .ok (some (.submit submission.user priority budget submission.name)) ∧
      submission.priority = Priority.ofIndex priority ∧
      submission.budget = Cycles.nearest budget := by
  rw [Console.request?] at asked
  split at asked
  case h_1 user priority budget file parsed =>
    cases Option.some.inj asked
    rw [Request.submission?] at made
    cases found : load file with
    | error fault =>
      rw [found] at made
      cases made
    | ok image =>
      rw [found] at made
      cases Option.some.inj made
      exact ⟨found, priority, budget, parsed, rfl, rfl⟩
  case h_5 => cases asked
  all_goals
    cases Option.some.inj asked
    cases made

/-- What an answer grants at a moment was asked for by the line of that moment. -/
theorem submits_of_granted {m : Moment σ} {text : String} {request : Request} {reply : Reply}
    {submission : Submission} (readable : Lines.text? m.line = some text)
    (asked : Console.request? text = some request)
    (granted : submission ∈ request.granted (host.load m.session.world) reply) :
    Submits host m m.session.console.scheduler.table.nextId submission := by
  cases reply with
  | created id =>
    have made := Option.mem_toList.mp granted
    obtain ⟨image, priority, budget, parsed, rest⟩ := parse_of_submission asked made
    exact ⟨rfl, ⟨text, priority, budget, readable, parsed, rest⟩, image⟩
  | done | refused => cases granted

theorem length_granted_le (load : String → Except Fault (List UInt8)) (request : Request)
    (reply : Reply) : (request.granted load reply).length ≤ 1 := by
  cases reply with
  | created id =>
    rw [Request.granted]
    cases request.submission? load <;> simp
  | done | refused => exact Nat.zero_le 1

/-- How far a session has come: the submissions granted and the events since it began. -/
structure Progress (host : Host σ) (config : Config) (granted : List Submission)
    (events : List Event) (s : Session σ) (moments : List (Moment σ)) (outputs : List Output)
    (further : List Submission) (later : List Event) (t : Session σ) : Prop where
  run : Scheduler.Run config (granted ++ further) (events ++ later) t.console.scheduler
  announced : Output.records outputs = Event.records later
  offered : t.world = host.keepAll s.world (Event.records later)
  made : ∀ (i : Nat) submission, further[i]? = some submission →
    ∃ m ∈ moments, Submits host m (granted.length + i) submission

theorem Course.progress (past : Scheduler.Run config granted events s.console.scheduler)
    (course : Course host s moments outputs t) :
    ∃ further later, Progress host config granted events s moments outputs further later t := by
  induction course with
  | start => exact ⟨[], [], by simpa using past, rfl, rfl, nofun⟩
  | @read moments outputs more t u line flow _ fed ih =>
    obtain ⟨further, later, so⟩ := ih
    have made (i : Nat) (submission : Submission) (found : further[i]? = some submission) :
        ∃ m ∈ moments ++ [⟨t, line⟩], Submits host m (granted.length + i) submission := by
      obtain ⟨m, among, submits⟩ := so.made i submission found
      exact ⟨m, List.mem_append_left _ among, submits⟩
    rcases feed_cases fed with
      ⟨rfl, quiet⟩ | ⟨text, request, answer, readable, asked, performed, rfl, announced⟩
    · refine ⟨further, later, so.run, ?_, so.offered, made⟩
      rw [Output.records_append, quiet, List.append_nil, so.announced]
    · have run := so.run.serve _ request performed
      refine ⟨further ++ request.granted (host.load t.world) answer.value.1, later ++ answer.events,
        by simpa only [List.append_assoc] using run, ?_, ?_, ?_⟩
      · rw [Output.records_append, announced, so.announced, Event.records_append]
      · rw [Event.records_append, host.keepAll_append, ← so.offered]
      · intro i submission found
        rw [List.getElem?_append] at found
        split at found
        case isTrue => exact made i submission found
        case isFalse behind =>
          -- at most one submission is granted at a time, so it has the next identifier
          have one := length_granted_le (host.load t.world) request answer.value.1
          have last := (List.getElem?_eq_some_iff.mp found).1
          have here : i = further.length := by omega
          have count := so.run.history.faithful.count
          rw [List.length_append] at count
          rw [here, count]
          exact ⟨⟨t, line⟩, List.mem_append_right _ (List.mem_singleton_self _),
            submits_of_granted readable asked (List.mem_of_getElem? found)⟩

end Session

namespace Storage

/-- An image is the beginning of what is in the file that a name leads to. -/
theorem readImage_eq_ok_iff {s : Storage} {path : String} {image : List UInt8} :
    s.readImage path = .ok image ↔ ∃ l content, s.locate path = .ok l ∧
      s.contentAt l = .ok content ∧ image = content.take wordCount := by
  have mapped : s.readImage path = .ok image ↔
      ∃ content, s.read path = .ok content ∧ image = content.take wordCount := by
    rw [readImage]
    cases s.read path <;> simp [Except.map, eq_comm]
  rw [mapped]
  constructor
  · rintro ⟨content, read, same⟩
    obtain ⟨l, names, there⟩ := read_eq_ok_iff.mp read
    have found := contentAt_eq_ok_iff.mp there
    exact ⟨l, content, locate_eq_ok_iff.mpr ⟨names, by simp [found]⟩, there, same⟩
  · rintro ⟨l, content, located, there, same⟩
    exact ⟨content, read_eq_ok_iff.mpr ⟨l, (locate_eq_ok_iff.mp located).1, there⟩, same⟩

end Storage

namespace Session

variable {s t : Session Storage} {placement : Placement} {config : Config}
  {granted : List Submission} {events : List Event}

/-- What there is to say about the files of a world in which a session has been at work. -/
structure Filed (placement : Placement) (config : Config) (granted : List Submission)
    (events : List Event) (s : Session Storage) (moments : List (Moment Storage))
    (outputs : List Output) (further : List Submission) (later : List Event)
    (written : List (Location × Record)) (t : Session Storage) : Prop where
  course : Course (Storage.host placement) s moments outputs t
  run : Scheduler.Run config (granted ++ further) (events ++ later) t.console.scheduler
  announced : Output.records outputs = Event.records later
  /-- The records were offered one after another. Those that were taken are known, and where each of
  them went. -/
  delivered : Storage.Delivered placement s.world (Event.records later) written t.world
  home : t.world.home = s.world.home
  /-- A file to which records went holds the last of them and nothing else. -/
  last : ∀ l r, Storage.lastAt l written = some r →
    t.world.contentAt l = .ok (Storage.bytes r)
  /-- The other files are those that were there before, and hold what they held. -/
  other : ∀ l, Storage.lastAt l written = none → ∀ content,
    t.world.contentAt l = .ok content ↔ s.world.contentAt l = .ok content
  /-- No directory is lost, and beside images none is made. -/
  directories : ∀ l, (s.world.kind? l = some .directory → t.world.kind? l = some .directory) ∧
    (placement = .besideImage → t.world.kind? l = some .directory →
      s.world.kind? l = some .directory)
  /-- A process was made of what its file held at the moment when its line was read. -/
  images : ∀ (i : Nat) submission, further[i]? = some submission →
    ∃ m ∈ moments, Submits (Storage.host placement) m (granted.length + i) submission ∧
      ∃ l content, m.session.world.locate submission.name = .ok l ∧
        m.session.world.contentAt l = .ok content ∧ submission.image = content.take wordCount
  /-- Since then it has become what becomes of that when it runs alone. -/
  faithful : Scheduler.Faithful (granted ++ further) (events ++ later) t.console.scheduler

theorem Course.filed (past : Scheduler.Run config granted events s.console.scheduler)
    {moments : List (Moment Storage)} {outputs : List Output}
    (course : Course (Storage.host placement) s moments outputs t) :
    ∃ further later written,
      Filed placement config granted events s moments outputs further later written t := by
  obtain ⟨further, later, so⟩ := course.progress past
  obtain ⟨written, delivered⟩ := Storage.exists_delivered placement s.world (Event.records later)
  rw [← so.offered] at delivered
  have leaves := delivered.leaves
  refine ⟨further, later, written, course, so.run, so.announced, delivered, leaves.home, ?_, ?_, ?_,
    ?_, so.run.history.faithful⟩
  · intro l r last
    exact Storage.contentAt_eq_ok_iff.mpr (leaves.last l r last)
  · intro l untouched content
    rw [Storage.contentAt_eq_ok_iff, Storage.contentAt_eq_ok_iff]
    exact (leaves.other l untouched).file_iff
  · intro l
    refine ⟨leaves.directory l, fun beside there => ?_⟩
    cases last : Storage.lastAt l written with
    | some r =>
      rw [leaves.last l r last] at there
      cases there
    | none =>
      rcases leaves.other l last with same | made
      · rwa [← same]
      · exact absurd beside made.allowed
  · intro i submission found
    obtain ⟨m, among, submits⟩ := so.made i submission found
    exact ⟨m, among, submits, Storage.readImage_eq_ok_iff.mp submits.image⟩

/-- Whichever way a session reads its script, files hold the last records that were taken or what
they held before, and processes are what their files held when they were asked for. -/
theorem filed_of_script (placement : Placement)
    (past : Scheduler.Run config granted events s.console.scheduler) :
    (∀ input t outputs closing, s.run (Storage.host placement) input = some (t, outputs, closing) →
      ∃ moments further later written, moments.map Moment.line <+: Lines.ofBytes input ∧
        Filed placement config granted events s moments outputs further later written t) ∧
    ∀ l limit t outputs closing,
      s.follow (Storage.host placement) (Storage.blockAt l) limit = some (t, outputs, closing) →
        ∃ moments further later written,
          Filed placement config granted events s moments outputs further later written t := by
  constructor
  · intro input t outputs closing read
    obtain ⟨moments, among, course⟩ := exists_course_of_feedAll read
    obtain ⟨further, later, written, filed⟩ := course.filed past
    exact ⟨moments, further, later, written, among, filed⟩
  · intro l limit t outputs closing read
    obtain ⟨moments, course⟩ := exists_course_of_follow read
    exact ⟨moments, course.filed past⟩

/-- A record replaces the image of a process that waits, and is replaced through another spelling of
its name; a process that is made of that file later is made of the record. -/
theorem filed_of_overwriting :
    let bytes (text : String) : List UInt8 := text.toUTF8.data.toList
    let image : Node := .file [0, 1, 2]
    let world : Storage := { home := [], root := .directory [("p", .file []), ("p.core", image)] }
    let s : Session Storage := ⟨⟨.init {}, .human⟩, world⟩
    let input := bytes
      "sub 1 0 5 p\nsub 1 0 5 p.core\nsub 1 0 5 ./p\nrunall\nsub 1 0 5 p.core\n"
    ∃ t outputs closing, s.run (Storage.host .besideImage) input = some (t, outputs, closing) ∧
      t.world.files.map Prod.fst = [["p.core"], ["p.core.core"], ["p"]] ∧
      (Output.records outputs).map (fun r => (r.status.name, r.status.memory.toList.take 3)) =
        [("p", [0, 0, 0]), ("p.core", [0, 1, 2]), ("./p", [0, 0, 0])] ∧
      t.console.scheduler.processes.map (fun p => (p.name, p.machine.memory.toList.take 8)) =
        [("p.core", bytes "PID = 2\n")] ∧
      ∃ moments further later written, moments.map Moment.line <+: Lines.ofBytes input ∧
        Filed .besideImage {} [] [] s moments outputs further later written t := by
  intro bytes image world s input
  have done : (s.run (Storage.host .besideImage) input).map (fun (t, outputs, _) =>
      (t.world.files.map Prod.fst,
        (Output.records outputs).map fun r => (r.status.name, r.status.memory.toList.take 3),
        t.console.scheduler.processes.map fun p => (p.name, p.machine.memory.toList.take 8))) =
      some ([["p.core"], ["p.core.core"], ["p"]],
        [("p", [0, 0, 0]), ("p.core", [0, 1, 2]), ("./p", [0, 0, 0])],
        [("p.core", bytes "PID = 2\n")]) := by decide +kernel
  obtain ⟨⟨t, outputs, closing⟩, read, same⟩ := Option.map_eq_some_iff.mp done
  obtain ⟨places, rest⟩ := Prod.mk.inj same
  obtain ⟨names, waiting⟩ := Prod.mk.inj rest
  exact ⟨t, outputs, closing, read, places, names, waiting,
    (filed_of_script .besideImage .start).1 input t outputs closing read⟩

end Session

end Timeshare
