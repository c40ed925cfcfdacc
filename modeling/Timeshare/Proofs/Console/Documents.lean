import Mathlib
import Timeshare.Console.Basic
import Timeshare.Proofs.Record
import Timeshare.Proofs.Text.Json

/-!
# Answers as JSON documents

A console that answers in JSON says a document in one line: the statuses of all processes, or the
status of one. Each field of a status stands under a key of its own and is read back from there
(`Status.ofJson?_json`), so the line determines the document (`Document.read?_eq_some_iff`).
`emit_determines` says what this means for the answers.
-/

namespace Timeshare

namespace Json

/-! ## Parts of a value -/

/-- What an object has under a key, as it is meant. -/
def entry? {α : Type} (meant : Json → Option α) (key : String) : Json → Option α
  | object fields => (fields.lookup key).bind meant
  | _ => none

def toInt? : Json → Option Int
  | number n => some n
  | _ => none

/-- A number as a count; no count is below zero. -/
def toNat? (j : Json) : Option Nat := j.toInt?.map Int.toNat

def toText? : Json → Option String
  | string s => some s
  | _ => none

def toItems? : Json → Option (List Json)
  | array items => some items
  | _ => none

end Json

namespace Status

open Json in
/-- The status that an object describes. -/
def ofJson? (j : Json) : Option Status := do
  let state ← j.entry? toText? "state"
  let priority ← j.entry? toText? "priority"
  let words ← (← j.entry? toItems? "memory").mapM toNat?
  return {
    id := ← j.entry? toNat? "id"
    user := ← j.entry? toInt? "user_id"
    state := ← ProcessState.read? state.toList
    priority := ← Priority.read? priority.toList
    budget := UInt32.ofNat (← j.entry? toNat? "max_cycles")
    executed := UInt32.ofNat (← j.entry? toNat? "executed_cycles")
    name := ← j.entry? toText? "name"
    counter := ← j.entry? toNat? "program_counter"
    accumulator := UInt8.ofNat (← j.entry? toNat? "accumulator")
    flags := UInt8.ofNat (← j.entry? toNat? "flags")
    memory := ← Memory.ofWords? (words.map UInt8.ofNat)
  }

theorem mapM_toNat? (words : List UInt8) :
    (words.map fun word => Json.number word.toNat).mapM Json.toNat? =
      some (words.map UInt8.toNat) := mapM_map_eq_some fun _ _ => rfl

/-- A status is read back from its object. -/
theorem ofJson?_json (s : Status) : ofJson? s.json = some s := by
  have id : s.json.entry? Json.toNat? "id" = some s.id := rfl
  have user : s.json.entry? Json.toInt? "user_id" = some s.user := rfl
  have state : s.json.entry? Json.toText? "state" = some s.state.name := rfl
  have priority : s.json.entry? Json.toText? "priority" = some s.priority.name := rfl
  have budget : s.json.entry? Json.toNat? "max_cycles" = some s.budget.toNat := rfl
  have executed : s.json.entry? Json.toNat? "executed_cycles" = some s.executed.toNat := rfl
  have name : s.json.entry? Json.toText? "name" = some s.name := rfl
  have counter : s.json.entry? Json.toNat? "program_counter" = some s.counter := rfl
  have accumulator : s.json.entry? Json.toNat? "accumulator" = some s.accumulator.toNat := rfl
  have flags : s.json.entry? Json.toNat? "flags" = some s.flags.toNat := rfl
  have memory : s.json.entry? Json.toItems? "memory" =
      some (s.memory.toList.map fun word => Json.number word.toNat) := rfl
  have words : (s.memory.toList.map UInt8.toNat).map UInt8.ofNat = s.memory.toList := by
    simp [Function.comp_def]
  simp only [ofJson?, id, user, state, priority, budget, executed, name, counter, accumulator,
    flags, memory, mapM_toNat?, words, Option.bind_eq_bind, Option.bind_some, Option.pure_def,
    ProcessState.read?_name, Priority.read?_name, Memory.ofWords?_toList, UInt32.ofNat_toNat,
    UInt8.ofNat_toNat]

end Status

/-! ## Documents -/

/-- What a console has to say in JSON. -/
inductive Document where
  | all (statuses : List Status)
  | one (status : Status)

namespace Document

def json : Document → Json
  | all statuses => .array (statuses.map Status.json)
  | one status => status.json

/-- The document that a value describes. -/
def ofJson? : Json → Option Document
  | .array items => (items.mapM Status.ofJson?).map all
  | j => (Status.ofJson? j).map one

/-- The line of a document. -/
def line (d : Document) : String := d.json.text ++ "\n"

/-- The document that a line says. What was read is written again, so nothing else passes for a
document. -/
def read? (text : String) : Option Document :=
  ((Json.ofText? (String.ofList text.toList.dropLast)).bind ofJson?).filter fun d => d.line = text

theorem mapM_ofJson? (statuses : List Status) :
    (statuses.map Status.json).mapM Status.ofJson? = some statuses := by
  have each : ∀ s ∈ statuses, Status.ofJson? s.json = some (id s) := fun s _ =>
    Status.ofJson?_json s
  exact (mapM_map_eq_some each).trans (congrArg some statuses.map_id)

theorem ofJson?_json (d : Document) : ofJson? d.json = some d := by
  cases d with
  | all statuses => rw [json, ofJson?, mapM_ofJson?, Option.map_some]
  | one s =>
    have read : ofJson? s.json = (Status.ofJson? s.json).map one := rfl
    rw [json, read, Status.ofJson?_json, Option.map_some]

theorem emit_json (d : Document) (text : String) : OutputFormat.json.emit d.json text = d.line :=
  rfl

theorem read?_line (d : Document) : read? d.line = some d := by
  have body : String.ofList d.line.toList.dropLast = d.json.text := by simp [line]
  rw [read?, body, Json.ofText?_text, Option.bind_some, ofJson?_json]
  simp

theorem read?_eq_some_iff {text : String} {d : Document} : read? text = some d ↔ d.line = text := by
  constructor
  · intro h
    exact of_decide_eq_true (Option.filter_eq_some_iff.mp h).2
  · rintro rfl
    exact read?_line d

theorem line_injective {d e : Document} : d.line = e.line ↔ d = e := by
  constructor
  · intro same
    rw [← Option.some_inj, ← read?_line, same, read?_line]
  · rintro rfl
    rfl

end Document

/-- A document in JSON is one line, whatever text is given for it, and the line determines the
document. A console that answers in JSON says the document of all processes or that of one, and the
status of everybody is read back from it. -/
theorem emit_determines :
    (∀ (d : Document) (text : String), ∃ body, OneLine body ∧
      OutputFormat.json.emit d.json text = body ++ "\n") ∧
    (∀ (d : Document) (text : String),
      Document.read? (OutputFormat.json.emit d.json text) = some d) ∧
    (∀ (d e : Document) (text other : String),
      OutputFormat.json.emit d.json text = OutputFormat.json.emit e.json other ↔ d = e) ∧
    ∀ (s : Scheduler) (load : String → Except Fault (List UInt8)),
      let c : Console := ⟨s, .json⟩
      (∃ text, c.execute load .list = some (c, [.say text], .proceed) ∧
        Document.read? text = some (.all (s.processes.map Process.status))) ∧
      ∀ id, (∃ p text, s.lookup id = .ok p ∧
          c.execute load (.inspect id) = some (c, [.say text], .proceed) ∧
          Document.read? text = some (.one p.status)) ∨
        ∃ refusal, s.lookup id = .error refusal ∧
          c.execute load (.inspect id) = some (c, [Console.notFound id], .proceed) := by
  refine ⟨fun d text => ⟨d.json.text, d.json.oneLine_text, d.emit_json text⟩, fun d text => ?_,
    fun d e text other => ?_, fun s load => ⟨?_, fun id => ?_⟩⟩
  · rw [d.emit_json, d.read?_line]
  · rw [d.emit_json, e.emit_json, Document.line_injective]
  · refine ⟨_, rfl, Eq.trans ?_ (Document.read?_line (.all (s.processes.map Process.status)))⟩
    rw [← Document.emit_json]
    rfl
  · cases found : s.lookup id with
    | ok p =>
      refine .inl ⟨p, (Document.one p.status).line, rfl, ?_, Document.read?_line _⟩
      simp only [Console.execute, found]
      rfl
    | error refusal =>
      refine .inr ⟨refusal, rfl, ?_⟩
      simp only [Console.execute, found]

end Timeshare
