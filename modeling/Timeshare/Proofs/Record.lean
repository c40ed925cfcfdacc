import Mathlib
import Timeshare.Record
import Timeshare.Proofs.Text.Integer
import Timeshare.Proofs.Text.Lines

/-!
# Records read back

The name of a process stands in its record as it is, so it may hold line feeds and look like any
other part of a record. But there are always six lines above it and eight below it: a reader that
counts lines from both ends is left with the name (`Record.lines_text`). Every other line says one
fact in a form of its own, which reads back to that fact. So the text of a record has everything in
it that the record says, only the flags are nowhere in it (`Record.parse_text`).
-/

namespace Timeshare

/-! ## Facts as they are written -/

/-- What stands behind a label. -/
def behind (label : String) (line : List Char) : List Char := line.drop label.length

theorem behind_append (label text : String) :
    behind label (label ++ text).toList = text.toList := by
  rw [behind, String.toList_append, List.drop_left' String.length_toList]

/-- Which of some values has the text for its name. -/
def named? {α : Type} (name : α → String) (values : List α) (text : List Char) : Option α :=
  values.find? fun value => (name value).toList = text

def ProcessState.read? : List Char → Option ProcessState :=
  named? ProcessState.name [.new, .ready, .running]

def Priority.read? : List Char → Option Priority := named? Priority.name [.low, .normal, .high]

def Ending.read? : List Char → Option Ending :=
  named? Ending.message [.completed, .timeLimit, .killed]

theorem ProcessState.read?_name (s : ProcessState) : read? s.name.toList = some s := by
  cases s <;> rfl

theorem Priority.read?_name (p : Priority) : read? p.name.toList = some p := by
  cases p <;> rfl

theorem Ending.read?_message (e : Ending) : read? e.message.toList = some e := by
  cases e <;> rfl

/-- Values that are read back one by one are read back together. -/
theorem mapM_map_eq_some {α β γ : Type} {write : α → β} {read : β → Option γ} {meant : α → γ}
    {values : List α} (each : ∀ value ∈ values, read (write value) = some (meant value)) :
    (values.map write).mapM read = some (values.map meant) := by
  induction values with
  | nil => rfl
  | cons value values ih =>
    obtain ⟨first, others⟩ := List.forall_mem_cons.mp each
    rw [List.map_cons, List.mapM_cons, first, ih others]
    rfl

/-! ## Memory as it is written -/

def hexDigit? (c : Char) : Option Nat :=
  (List.range 16).find? fun d => (Nat.digitChar d).toUpper = c

/-- The words that stand in hexadecimal, each with a blank behind it. -/
def hexWords? : List Char → Option (List UInt8)
  | [] => some []
  | high :: low :: _ :: rest => do
    let word := 16 * (← hexDigit? high) + (← hexDigit? low)
    return UInt8.ofNat word :: (← hexWords? rest)
  | _ => none

/-- The words of a row as they stand in its line. -/
def hexLine (row : List UInt8) : String := String.join (row.map fun word => hexWord word ++ " ")

/-- The memory that has some words, if they are as many as it takes. -/
def Memory.ofWords? (words : List UInt8) : Option Memory :=
  if h : words.length = wordCount then some ⟨words.toArray, h⟩ else none

theorem hexDigit?_toUpper : ∀ d < 16, hexDigit? (Nat.digitChar d).toUpper = some d := by decide

theorem hexWords?_hexWord (word : UInt8) (rest : List Char) :
    hexWords? ((hexWord word ++ " ").toList ++ rest) = (hexWords? rest).map (word :: ·) := by
  have bound := word.toNat_lt
  have high := hexDigit?_toUpper (word.toNat / 16) (by omega)
  have low := hexDigit?_toUpper (word.toNat % 16) (by omega)
  have whole : UInt8.ofNat (16 * (word.toNat / 16) + word.toNat % 16) = word := by
    rw [Nat.div_add_mod, UInt8.ofNat_toNat]
  have spelled : (hexWord word ++ " ").toList ++ rest =
      (Nat.digitChar (word.toNat / 16)).toUpper :: (Nat.digitChar (word.toNat % 16)).toUpper ::
        ' ' :: rest := by
    simp [hexWord]
  rw [spelled, hexWords?, high, low]
  simp only [Option.bind_eq_bind, Option.bind_some, whole]
  exact Option.map_eq_bind.symm

theorem hexWords?_hexLine (row : List UInt8) (rest : List Char) :
    hexWords? ((hexLine row).toList ++ rest) = (hexWords? rest).map (row ++ ·) := by
  induction row with
  | nil => cases found : hexWords? rest <;> simp [hexLine, found]
  | cons word row ih =>
    have parts : (hexLine (word :: row)).toList ++ rest =
        (hexWord word ++ " ").toList ++ ((hexLine row).toList ++ rest) := by
      simp [hexLine]
    rw [parts, hexWords?_hexWord, ih, Option.map_map]
    rfl

theorem Memory.flatten_rows (m : Memory) : m.rows.flatten = m.toList := by
  have split : ∀ start, (m.toList.drop start).take 8 ++ m.toList.drop (start + 8) =
      m.toList.drop start := fun start => by
    rw [← List.drop_drop, List.take_append_drop]
  have all : m.toList.drop 32 = [] := List.drop_eq_nil_of_le (by simp)
  simp only [rows, List.map_cons, List.map_nil, List.flatten_cons, List.flatten_nil]
  rw [← all, split 24, split 16, split 8, split 0, List.drop_zero]

theorem Memory.ofWords?_toList (m : Memory) : ofWords? m.toList = some m := by
  rw [ofWords?, dif_pos Vector.length_toList]
  exact congrArg some (Vector.toArray_inj.mp Array.toArray_toList)

theorem hexWords?_lines (rows : List (List UInt8)) :
    hexWords? (rows.flatMap fun row => (hexLine row).toList) = some rows.flatten := by
  induction rows with
  | nil => rfl
  | cons row rows ih =>
    rw [List.flatMap_cons, hexWords?_hexLine, ih, Option.map_some, List.flatten_cons]

/-! ## Lines -/

theorem oneLine_hexLine (row : List UInt8) : OneLine (hexLine row) := by
  have digit : ∀ d < 16, '\n' ≠ (Nat.digitChar d).toUpper := by decide
  have high : ∀ word : UInt8, '\n' ≠ (Nat.digitChar (word.toNat / 16)).toUpper := fun word =>
    digit _ (by have := word.toNat_lt; omega)
  have low : ∀ word : UInt8, '\n' ≠ (Nat.digitChar (word.toNat % 16)).toUpper := fun word =>
    digit _ (by omega)
  simp [OneLine, hexLine, hexWord, high, low]

/-- A line feed behind each of some texts parts their lines from the lines that follow. -/
theorem splitOn_join (lines : List String) (last : String) :
    (String.join (lines.map (· ++ "\n")) ++ last).toList.splitOn '\n' =
      lines.flatMap (·.toList.splitOn '\n') ++ last.toList.splitOn '\n' := by
  induction lines with
  | nil => simp
  | cons line lines ih =>
    have parts : (String.join ((line :: lines).map (· ++ "\n")) ++ last).toList =
        line.toList ++ '\n' :: (String.join (lines.map (· ++ "\n")) ++ last).toList := by
      simp
    rw [parts, List.splitOn_append_cons_self, ih, List.flatMap_cons, List.append_assoc]

theorem flatMap_splitOn {lines : List String} (single : ∀ line ∈ lines, OneLine line) :
    lines.flatMap (·.toList.splitOn '\n') = lines.map String.toList := by
  induction lines with
  | nil => rfl
  | cons line lines ih =>
    obtain ⟨first, later⟩ := List.forall_mem_cons.mp single
    rw [List.flatMap_cons, List.splitOn_eq_singleton first, ih later, List.map_cons,
      List.singleton_append]

namespace Status

/-- The lines above the name. -/
def above (s : Status) : List String :=
  ["PID = " ++ toString s.id,
   "userID = " ++ toString s.user,
   "state = " ++ s.state.name,
   "priority = " ++ s.priority.name,
   "max CPU cycles = " ++ toString s.budget.toNat,
   "CPU cycles used = " ++ toString s.executed.toNat]

/-- The lines below the name. -/
def below (s : Status) : List String :=
  ["PC = " ++ toString s.counter, "AC = " ++ toString s.accumulator.toNat] ++
  s.memory.rows.map hexLine ++ [""]

theorem report_eq (s : Status) :
    s.report = String.join ((s.above ++ ["filename = " ++ s.name] ++ s.below).map (· ++ "\n")) := by
  have rows : s.memory.rows.map hexRow = (s.memory.rows.map hexLine).map (· ++ "\n") := by
    rw [List.map_map]
    exact List.map_congr_left fun row _ => rfl
  unfold report
  simp only [above, below, rows, List.map_append, List.map_cons, List.map_nil, String.join_append,
    String.join_cons, String.join_nil, String.append_assoc, String.append_empty,
    String.empty_append]

theorem oneLine_above (s : Status) : ∀ line ∈ s.above, OneLine line := by
  have state : OneLine s.state.name := by cases s.state <;> decide
  have priority : OneLine s.priority.name := by cases s.priority <;> decide
  simp only [above, List.forall_mem_cons, oneLine_append, oneLine_number, oneLine_count, state,
    priority]
  decide

theorem oneLine_below (s : Status) : ∀ line ∈ s.below, OneLine line := by
  simp only [below, List.forall_mem_append, List.forall_mem_cons, List.forall_mem_map,
    oneLine_append, oneLine_count, oneLine_hexLine, implies_true, and_true]
  decide

end Status

namespace Record

/-- The name has lines of its own, and they stand between six lines and eight. -/
theorem lines_text (r : Record) :
    r.text.toList.splitOn '\n' =
      r.status.above.map String.toList ++ ("filename = " ++ r.status.name).toList.splitOn '\n' ++
      r.status.below.map String.toList ++ [r.ending.message.toList] := by
  have last : OneLine r.ending.message := by cases r.ending <;> decide
  rw [text, Status.report_eq, splitOn_join, List.flatMap_append, List.flatMap_append,
    flatMap_splitOn r.status.oneLine_above, flatMap_splitOn r.status.oneLine_below,
    List.flatMap_singleton, List.splitOn_eq_singleton last]

/-- What a text says if it is the text of a record: six lines are taken from the front, eight from
the back, and those between them are the name behind its label. -/
def parse (text : String) : Option Record :=
  match text.toList.splitOn '\n' with
  | id :: user :: state :: priority :: budget :: executed :: rest =>
    match rest.reverse with
    | ending :: _ :: row₃ :: row₂ :: row₁ :: row₀ :: accumulator :: counter :: name => do
      return {
        status := {
          id := ← Integer.digits? (behind "PID = " id)
          user := ← Integer.read? (String.ofList (behind "userID = " user))
          state := ← ProcessState.read? (behind "state = " state)
          priority := ← Priority.read? (behind "priority = " priority)
          budget := UInt32.ofNat (← Integer.digits? (behind "max CPU cycles = " budget))
          executed := UInt32.ofNat (← Integer.digits? (behind "CPU cycles used = " executed))
          name := String.ofList (behind "filename = " (['\n'].intercalate name.reverse))
          counter := ← Integer.digits? (behind "PC = " counter)
          accumulator := UInt8.ofNat (← Integer.digits? (behind "AC = " accumulator))
          flags := 0
          memory := ← (hexWords? (row₀ ++ row₁ ++ row₂ ++ row₃)).bind Memory.ofWords?
        }
        ending := ← Ending.read? ending
      }
    | _ => none
  | _ => none

/-- A record with its flags cleared. -/
def shown (r : Record) : Record := { r with status := { r.status with flags := 0 } }

theorem parse_text (r : Record) : parse r.text = some r.shown := by
  have words := hexWords?_lines r.status.memory.rows
  rw [Memory.flatten_rows] at words
  simp only [Memory.rows, List.map_cons, List.map_nil, List.flatMap_cons, List.flatMap_nil,
    List.append_nil] at words
  rw [parse, lines_text]
  -- From the back the lines of the name come last, so the eight others are taken off before them.
  simp only [Status.above, Status.below, Memory.rows, List.map_cons, List.map_nil,
    List.cons_append, List.nil_append, List.append_assoc, List.reverse_append, List.reverse_cons,
    List.reverse_nil, List.reverse_reverse, List.intercalate_splitOn]
  simp only [behind_append, String.ofList_toList, Integer.digits?_toString,
    Integer.read?_toString, ProcessState.read?_name, Priority.read?_name, Ending.read?_message,
    words, Option.bind_eq_bind, Option.bind_some, Memory.ofWords?_toList, UInt32.ofNat_toNat,
    UInt8.ofNat_toNat]
  rfl

/-- The record that has a text, with no flags set. What was read is written again, so nothing else
passes for a record. -/
def read? (text : String) : Option Record := (parse text).filter fun r => r.text = text

theorem text_shown (r : Record) : r.shown.text = r.text := rfl

theorem read?_eq_some_iff {text : String} {r : Record} :
    read? text = some r ↔ r.text = text ∧ r.status.flags = 0 := by
  rw [read?, Option.filter_eq_some_iff, decide_eq_true_eq]
  constructor
  · rintro ⟨parsed, rfl⟩
    rw [parse_text] at parsed
    exact ⟨rfl, Option.some.inj parsed ▸ rfl⟩
  · rintro ⟨rfl, clear⟩
    refine ⟨?_, rfl⟩
    rw [parse_text, shown, ← clear]

theorem read?_text (r : Record) : read? r.text = some r.shown :=
  read?_eq_some_iff.mpr ⟨r.text_shown, rfl⟩

theorem text_eq_iff {r q : Record} :
    r.text = q.text ↔
      r.ending = q.ending ∧ r.status = { q.status with flags := r.status.flags } := by
  constructor
  · intro same
    have shown : r.shown = q.shown := by
      rw [← Option.some_inj, ← read?_text, ← read?_text, same]
    obtain ⟨status, ending⟩ := Record.mk.inj shown
    refine ⟨ending, ?_⟩
    calc r.status = { r.shown.status with flags := r.status.flags } := rfl
      _ = { q.shown.status with flags := r.status.flags } := by rw [shown]
      _ = { q.status with flags := r.status.flags } := rfl
  · rintro ⟨ending, status⟩
    rw [text, text, ending, status]
    rfl

/-- The text of a record determines it, the flags apart: everything else is read back from it, so
records have one text only if they differ in nothing else. -/
theorem text_determines :
    (∀ r : Record, read? r.text = some { r with status := { r.status with flags := 0 } }) ∧
    ∀ r q : Record, r.text = q.text ↔
      r.ending = q.ending ∧ r.status = { q.status with flags := r.status.flags } :=
  ⟨read?_text, fun _ _ => text_eq_iff⟩

end Record

end Timeshare
