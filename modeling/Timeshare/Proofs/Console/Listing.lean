import Mathlib
import Timeshare.Proofs.Command.Grammar
import Timeshare.Proofs.Console.Files
import Timeshare.Proofs.Status.Listing

/-!
# Listings in a session

A process that a session creates is called by a word of the line that asked for it, and a word has
no blank in it (`isWord_of_parse`). So a session that began with no processes, or with such ones,
never has others (`Course.isWord_name`), and every listing that it shows can be read.
`listings_legible` says this together with what makes a listing legible.
-/

namespace Timeshare

/-- The file that a line asks for is one of its words. -/
theorem Command.isWord_of_parse {line file : String} {user priority budget : Int}
    (parsed : parse line = .ok (some (.submit user priority budget file))) : IsWord file := by
  have denotes := denotes_of_parse parsed
  have among : file ∈ words line := by
    generalize words line = ws at denotes
    cases denotes with
    | submit => simp
  exact isWord_of_mem_words among

namespace Session

variable {σ : Type} {host : Host σ} {s t : Session σ} {moments : List (Moment σ)}
  {outputs : List Output} {config : Config} {granted : List Submission} {events : List Event}

theorem Course.format_eq (course : Course host s moments outputs t) :
    t.console.format = s.console.format := by
  induction course with
  | start => rfl
  | read _ fed ih =>
    rcases feed_cases fed with ⟨rfl, -⟩ | ⟨_, _, _, -, -, -, rfl, -⟩
    · exact ih
    · exact ih

/-- Processes that were there before keep their names, and those that are created have words for
names. -/
theorem Course.isWord_name (past : Scheduler.Run config granted events s.console.scheduler)
    (named : ∀ submission ∈ granted, IsWord submission.name)
    (course : Course host s moments outputs t) :
    ∀ p ∈ t.console.scheduler.processes, IsWord p.name := by
  intro p mem
  obtain ⟨further, later, so⟩ := course.progress past
  obtain ⟨id, found⟩ := Table.mem_processes.mp mem
  obtain ⟨submission, made, bare, -⟩ := so.run.history.faithful.alive id p found
  have name : p.name = submission.name := by
    have same := congrArg Process.name bare
    rwa [Process.iterate_step_eq] at same
  rw [name]
  rw [List.getElem?_append] at made
  split at made
  case isTrue => exact named submission (List.mem_of_getElem? made)
  case isFalse =>
    obtain ⟨m, -, submits⟩ := so.made _ submission made
    obtain ⟨text, priority, budget, -, parsed, -⟩ := submits.asked
    exact Command.isWord_of_parse parsed

theorem feed_of_list {line : List UInt8} {text : String} (readable : Lines.text? line = some text)
    (asked : Command.parse text = .ok (some .list)) (human : t.console.format = .human) :
    t.feed host line =
      some (t, [.say (listing (t.console.scheduler.processes.map Process.status) ++ "\n")],
        .proceed) := by
  simp only [feed, readable, Console.interpret, asked, Console.execute, human, Option.map_some,
    host.settle_of_quiet t.world (show Output.records [.say _] = [] from rfl)]
  rfl

/-- What a session lists can be read. -/
structure ListsLegibly (host : Host σ) (t : Session σ) : Prop where
  names : ∀ p ∈ t.console.scheduler.processes, IsWord p.name
  legible : Listing.Legible (t.console.scheduler.processes.map Process.status)
  /-- A line that asks for the listing is answered with it and changes nothing. -/
  shown : ∀ line text, Lines.text? line = some text → Command.parse text = .ok (some .list) →
    t.feed host line =
      some (t, [.say (listing (t.console.scheduler.processes.map Process.status) ++ "\n")],
        .proceed)

/-- A listing can be read if all names are words, and all names are words in a session in which no
others were there from the start. -/
theorem listings_legible :
    (∀ statuses : List Status, (∀ s ∈ statuses, IsWord s.name) → Listing.Legible statuses) ∧
    ∀ (σ : Type) (host : Host σ) (s t : Session σ) (moments : List (Moment σ))
      (outputs : List Output) (config : Config) (granted : List Submission) (events : List Event),
      Scheduler.Run config granted events s.console.scheduler →
      (∀ submission ∈ granted, IsWord submission.name) → s.console.format = .human →
      Course host s moments outputs t → ListsLegibly host t := by
  refine ⟨fun statuses => Listing.legible_of_isWord, ?_⟩
  intro σ host s t moments outputs config granted events past named human course
  have names := course.isWord_name past named
  have legible : Listing.Legible (t.console.scheduler.processes.map Process.status) :=
    Listing.legible_of_isWord (List.forall_mem_map.mpr names)
  exact ⟨names, legible, fun line text readable asked =>
    feed_of_list readable asked (course.format_eq.trans human)⟩

/-- No entry keeps within its column, neither where numbers have as many digits as they can nor where
names are long, and each is still a word by itself. -/
theorem listings_legible_overflowing :
    let wide : Status :=
      { id := 4294967295, user := -2147483648, state := .running, priority := .normal,
        budget := Cycles.limit, executed := Cycles.limit, name := "größer-als-breit", counter := 0,
        accumulator := 0, flags := 0, memory := Memory.ofImage [] }
    let s : Session Archive := ⟨⟨.init {}, .human⟩, { images := [("größer-als-breit", .ok [])] }⟩
    let input := Lines.ofText
      "sub -2147483648 1 99999999999 größer-als-breit\nsub 7 2 -1 größer-als-breit junk\n"
    (∀ s ∈ [wide], IsWord s.name) ∧
    listing [wide] = Listing.heading ++
      "4294967295  -2147483648  Running    Normal  4294967295  4294967295  größer-als-breit\n" ∧
    Listing.Legible [wide] ∧
    ∃ t outputs closing, s.run Archive.host input = some (t, outputs, closing) ∧
      listing (t.console.scheduler.processes.map Process.status) =
        Listing.heading ++
          "    0  -2147483648    New    Normal  4294967295         0  größer-als-breit\n" ++
          "    1       7    New      High        0         0  größer-als-breit\n" ∧
      ListsLegibly Archive.host t := by
  intro wide s input
  have named : ∀ s ∈ [wide], IsWord s.name := by decide
  have listed : (s.run Archive.host input).map (fun (t, _, _) =>
      listing (t.console.scheduler.processes.map Process.status)) =
        some (Listing.heading ++
          "    0  -2147483648    New    Normal  4294967295         0  größer-als-breit\n" ++
          "    1       7    New      High        0         0  größer-als-breit\n") := by
    decide +kernel
  obtain ⟨⟨t, outputs, closing⟩, read, text⟩ := Option.map_eq_some_iff.mp listed
  obtain ⟨moments, -, course⟩ := exists_course_of_feedAll read
  refine ⟨named, by decide +kernel, listings_legible.1 [wide] named, t, outputs, closing, read,
    text, ?_⟩
  exact listings_legible.2 Archive Archive.host s t moments outputs {} [] [] .start nofun rfl course

end Session

end Timeshare
