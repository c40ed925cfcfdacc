import Mathlib
import Timeshare.Console.Script
import Timeshare.Proofs.Text.Lines
import Timeshare.Storage.Archive

/-!
# Sessions one after another

A session reads its input line by line and keeps nothing of a line but what it did to the console
and to the world. So an input that ends at the end of a line can be cut off there and read by itself
(`run_append`). How far the reading goes is seen on the lines: up to the first one that asks to stop
or is no text. `composes` puts this together.
-/

namespace Timeshare

/-! ## Texts of output -/

namespace Output

theorem said_append (a b : List Output) : said (a ++ b) = said a ++ said b := by
  rw [said, said, said, List.map_append, String.join_append]

theorem complained_append (a b : List Output) :
    complained (a ++ b) = complained a ++ complained b := by
  rw [complained, complained, complained, List.map_append, String.join_append]

end Output

namespace Session

variable {σ : Type} {host : Host σ} {s : Session σ} {a : List UInt8}

/-! ## Lines -/

/-- Puts output before that of a session. -/
def preceded (outputs : List Output) :
    Session σ × List Output × Closing → Session σ × List Output × Closing
  | (s, further, closing) => (s, outputs ++ further, closing)

theorem feedAll_cons (host : Host σ) (s : Session σ) (line : List UInt8)
    (rest : List (List UInt8)) :
    s.feedAll host (line :: rest) = (s.feed host line).bind fun
      | (s, outputs, .exit) => some (s, outputs, .exited)
      | (s, outputs, .failed fault) => some (s, outputs, .failed fault)
      | (s, outputs, .proceed) => (s.feedAll host rest).map (preceded outputs) := by
  rw [feedAll]
  rcases s.feed host line with _ | ⟨t, outputs, _ | _ | fault⟩ <;> rfl

/-- What comes before the first part comes before both. -/
theorem andThen_map_preceded (first : Option (Session σ × List Output × Closing))
    (next : Session σ → Option (Session σ × List Output × Closing)) (outputs : List Output) :
    andThen (first.map (preceded outputs)) next = (andThen first next).map (preceded outputs) := by
  rcases first with _ | ⟨t, further, _ | _ | fault⟩
  case some.endOfInput =>
    simp only [Option.map_some, preceded, andThen, Option.map_map]
    congr 1
    funext x
    simp [preceded]
  all_goals rfl

/-- Lines are read one part after the other. -/
theorem feedAll_append (host : Host σ) (s : Session σ) (a b : List (List UInt8)) :
    s.feedAll host (a ++ b) = andThen (s.feedAll host a) fun s => s.feedAll host b := by
  induction a generalizing s with
  | nil =>
    rw [List.nil_append, feedAll, andThen]
    simp
  | cons line rest ih =>
    rw [List.cons_append, feedAll_cons, feedAll_cons]
    rcases s.feed host line with _ | ⟨t, outputs, _ | _ | fault⟩
    case some.proceed => simp only [Option.bind_some, ih, andThen_map_preceded]
    all_goals rfl

/-- An input that ends at the end of a line is read by itself, whatever comes behind it. -/
theorem run_append (whole : Lines.Whole a) (b : List UInt8) :
    s.run host (a ++ b) = andThen (s.run host a) fun s => s.run host b := by
  simp only [run, Lines.ofBytes_append whole, feedAll_append]

/-! ## The end of a session -/

/-- A line that is text and does not ask to stop. -/
def Proceeds (line : List UInt8) : Prop :=
  ∃ text, Lines.text? line = some text ∧ Command.parse text ≠ .ok (some .exit)

/-- Among commands only the one to stop ends a session. -/
theorem flow_execute {c d : Console} {load : String → Except Fault (List UInt8)} {command : Command}
    {outputs : List Output} {flow : Flow} (other : command ≠ .exit)
    (executed : c.execute load command = some (d, outputs, flow)) : flow = .proceed := by
  have asked : ∀ request, c.ask load request = some (d, outputs, flow) → flow = .proceed := by
    intro request h
    obtain ⟨t, -, same⟩ := Option.map_eq_some_iff.mp h
    exact (congrArg (fun x => x.2.2) same).symm
  cases command with
  | submit => exact asked _ executed
  | kill => exact asked _ executed
  | run => exact asked _ executed
  | runAll => exact asked _ executed
  | list => exact (congrArg (fun x => x.2.2) (Option.some.inj executed)).symm
  | inspect id =>
    rw [Console.execute] at executed
    split at executed <;> exact (congrArg (fun x => x.2.2) (Option.some.inj executed)).symm
  | exit => exact absurd rfl other

theorem flow_feed {t : Session σ} {line : List UInt8} {outputs : List Output} {flow : Flow}
    (proceeds : Proceeds line) (fed : s.feed host line = some (t, outputs, flow)) :
    flow = .proceed := by
  obtain ⟨text, read, stays⟩ := proceeds
  rw [feed, read, Option.map_eq_some_iff] at fed
  obtain ⟨⟨console, said, f⟩, interpreted, same⟩ := fed
  obtain rfl : f = flow := congrArg (fun x => x.2.2) same
  rw [Console.interpret] at interpreted
  split at interpreted
  case h_2 command parsed =>
    rw [parsed] at stays
    exact flow_execute (fun same => stays (by rw [same])) interpreted
  all_goals exact (congrArg (fun x => x.2.2) (Option.some.inj interpreted)).symm

/-- Nothing but a line that asks to stop or is no text ends a session before its input does. -/
theorem closing_feedAll {lines : List (List UInt8)} {t : Session σ} {outputs : List Output}
    {closing : Closing} (proceeds : ∀ line ∈ lines, Proceeds line)
    (fed : s.feedAll host lines = some (t, outputs, closing)) : closing = .endOfInput := by
  induction lines generalizing s t outputs with
  | nil => exact (congrArg (fun x => x.2.2) (Option.some.inj fed)).symm
  | cons line rest ih =>
    obtain ⟨first, others⟩ := List.forall_mem_cons.mp proceeds
    rw [feedAll_cons, Option.bind_eq_some_iff] at fed
    obtain ⟨⟨u, said, flow⟩, read, later⟩ := fed
    obtain rfl := flow_feed first read
    obtain ⟨⟨v, further, last⟩, remaining, same⟩ := Option.map_eq_some_iff.mp later
    obtain rfl : last = closing := congrArg (fun x => x.2.2) same
    exact ih others remaining

/-- A line that is no text fails at once. -/
theorem run_of_unreadable {line rest : List UInt8} (single : 10 ∉ line)
    (unreadable : Lines.text? line = none) (stops : ∀ c ∈ rest.head?, c = 10) :
    s.run host (line ++ rest) = some (s, [], .failed .invalidText) := by
  have filled : line ≠ [] := by
    rintro rfl
    exact absurd unreadable (by decide)
  obtain ⟨first, later, lines, form⟩ := Lines.ofBytes_of_line filled single stops
  have none : Lines.text? first = none := by
    rcases form with rfl | rfl
    · exact unreadable
    · exact Lines.text?_trim_eq_none_iff.mpr unreadable
  rw [run, lines, feedAll, feed, none]

/-! ## The whole of it -/

/-- How a session goes on behind an input that ends at the end of a line. -/
structure Composes (host : Host σ) (s : Session σ) (a : List UInt8) : Prop where
  /-- When that input is read to its end, what comes behind it is read as if it came by itself: the
  console, the world and the closing are what that leads to, and the output is put together. -/
  continued : ∀ t outputs, s.run host a = some (t, outputs, .endOfInput) → ∀ b,
    s.run host (a ++ b) = (t.run host b).map fun (u, further, closing) =>
      (u, outputs ++ further, closing)
  /-- So are the results and the complaints. -/
  texts : ∀ t outputs, s.run host a = some (t, outputs, .endOfInput) →
    ∀ b u further closing, t.run host b = some (u, further, closing) →
      ∃ all, s.run host (a ++ b) = some (u, all, closing) ∧
        Output.said all = Output.said outputs ++ Output.said further ∧
        Output.complained all = Output.complained outputs ++ Output.complained further
  /-- When a line of that input asks to stop, nothing behind it has any effect. -/
  exited : ∀ t outputs, s.run host a = some (t, outputs, .exited) → ∀ b,
    s.run host (a ++ b) = some (t, outputs, .exited)
  /-- When all of that input is text and no line of it asks to stop, and the line behind it is no
  text, then the session fails at that line, with all effects of that input and no others. -/
  unreadable : (∀ line ∈ Lines.ofBytes a, Proceeds line) → ∀ t outputs closing,
    s.run host a = some (t, outputs, closing) → ∀ line rest, 10 ∉ line →
      Lines.text? line = none → (∀ c ∈ rest.head?, c = 10) →
        s.run host (a ++ (line ++ rest)) = some (t, outputs, .failed .invalidText)

/-- Reading a script is reading its lines one after another. -/
theorem composes (host : Host σ) (s : Session σ) (whole : Lines.Whole a) : Composes host s a := by
  constructor
  case continued =>
    intro t outputs read b
    rw [run_append whole, read]
    rfl
  case texts =>
    intro t outputs read b u further closing later
    refine ⟨outputs ++ further, ?_, Output.said_append .., Output.complained_append ..⟩
    rw [run_append whole, read, andThen, later]
    rfl
  case exited =>
    intro t outputs read b
    rw [run_append whole, read]
    rfl
  case unreadable =>
    intro proceeds t outputs closing read line rest single unreadable stops
    obtain rfl := closing_feedAll proceeds read
    rw [run_append whole, read, andThen, run_of_unreadable single unreadable stops]
    simp

/-- A script that creates a process and lets it end is read by itself, whether it ends there, a line
behind it asks to stop, or a byte behind it is no text. -/
theorem composes_script :
    let bytes (text : String) : List UInt8 := text.toUTF8.data.toList
    let s : Session Archive := ⟨⟨.init {}, .human⟩, { images := [("stop", .ok [])] }⟩
    let a := bytes "sub 1 0 5 stop\r\nkill 7\nrunall\n"
    let result (b : List UInt8) := (s.run Archive.host (a ++ b)).map fun x =>
      (x.1.world.records.map fun r => r.status.name, Output.complained x.2.1, x.2.2)
    Lines.Whole a ∧ result [] = some (["stop"], "Process 7 not found.\n", .endOfInput) ∧
      result (bytes "exit\nkill 8") = some (["stop"], "Process 7 not found.\n", .exited) ∧
      result (0xff :: bytes "\nkill 8") =
        some (["stop"], "Process 7 not found.\n", .failed .invalidText) ∧
      Composes Archive.host s a := by
  intro bytes s a result
  have whole : Lines.Whole a := by decide +kernel
  exact ⟨whole, by decide +kernel, by decide +kernel, by decide +kernel,
    composes Archive.host s whole⟩

end Session

end Timeshare
