import Mathlib
import Timeshare.Proofs.Record
import Timeshare.Proofs.Text.Words
import Timeshare.Status.Listing

/-!
# Listings read back

Nothing keeps an entry of a listing within its column, so a reader cannot go by columns. But there
are blanks between the entries of a line however long they are, and those that fill up a column are
blanks too. So the words of a line are those of its entries one after another (`words_line`). An
entry is one word except for a name that has blanks in it; where no name has, a line has seven words
and there are as many lines as processes, and everything that is listed is read back
(`legible_of_isWord`).
-/

namespace Timeshare

variable {text : String} {cells : List String}

/-! ## Cells -/

theorem words_replicate (n : Nat) (text : String) :
    words (String.ofList (List.replicate n ' ' ++ text.toList)) = words text := by
  induction n with
  | zero => rw [List.replicate_zero, List.nil_append, String.ofList_toList]
  | succ n ih =>
    rw [← ih]
    exact words_cons (c := ' ') rfl (by simp [List.replicate_succ])

/-- What fills up a column has no part in the words. -/
theorem words_alignRight (width : Nat) (text : String) : words (alignRight width text) = words text :=
  words_replicate _ text

theorem oneLine_alignRight {width : Nat} : OneLine (alignRight width text) ↔ OneLine text := by
  simp [OneLine, alignRight, List.leftpad]

theorem words_gap (before behind : String) :
    words (before ++ "  " ++ behind) = words before ++ words behind := by
  have gap : words (" " ++ behind) = words behind := words_cons (c := ' ') rfl (by simp)
  rw [← gap]
  exact words_append_cons (c := ' ') rfl (by simp)

/-- The words of cells with blanks between them are those of one cell after another. -/
theorem words_gaps (cells : List String) :
    words ("  ".intercalate cells) = cells.flatMap words := by
  induction cells with
  | nil => rfl
  | cons cell cells ih =>
    by_cases last : cells = []
    · rw [last, String.intercalate_singleton, List.flatMap_singleton]
    · rw [String.intercalate_cons_of_ne_nil last, words_gap, ih, List.flatMap_cons]

theorem oneLine_gaps (single : ∀ cell ∈ cells, OneLine cell) : OneLine ("  ".intercalate cells) := by
  induction cells with
  | nil => decide
  | cons cell cells ih =>
    obtain ⟨first, others⟩ := List.forall_mem_cons.mp single
    by_cases last : cells = []
    · rwa [last, String.intercalate_singleton]
    · rw [String.intercalate_cons_of_ne_nil last, oneLine_append, oneLine_append]
      exact ⟨⟨first, by decide⟩, ih others⟩

/-! ## Words of a line -/

theorem IsWord.oneLine (h : IsWord text) : OneLine text := fun feed =>
  Bool.false_ne_true ((h.2 _ feed).symm.trans (by decide))

theorem isWord_number (n : Int) : IsWord (toString n) := by
  constructor
  · intro empty
    have read := Integer.read?_toString n
    rw [empty] at read
    cases read
  · intro c mem
    rw [← Bool.not_eq_true]
    intro blank
    have digits : ∀ d < 10, isBlank (Nat.digitChar d) = false := by decide
    refine Integer.not_mem_toString ?_ ?_ n mem
    · rw [← Bool.not_eq_true]
      intro digit
      obtain ⟨d, small, rfl⟩ := Integer.exists_digitChar digit
      exact Bool.false_ne_true ((digits d small).symm.trans blank)
    · rintro rfl
      exact absurd blank (by decide)

theorem isWord_count (n : Nat) : IsWord (toString n) := isWord_number n

namespace Listing

/-- What a listing tells of a process. -/
structure Row where
  id : ProcessId
  user : Int
  state : ProcessState
  priority : Priority
  budget : Cycles
  executed : Cycles
  name : String
  deriving DecidableEq, Repr

namespace Row

variable {r : Row}

/-- The entries of a line, as they are before they are aligned. -/
def entries (r : Row) : List String :=
  [toString r.id, toString r.user, r.state.name, r.priority.name, toString r.budget.toNat,
    toString r.executed.toNat, r.name]

/-- The line of a row without its end. -/
def line (r : Row) : String :=
  "  ".intercalate (List.zipWith alignRight [5, 6, 5, 8, 7, 8, 8] r.entries)

/-- The row that has some words for its entries. -/
def ofWords? : List String → Option Row
  | [id, user, state, priority, budget, executed, name] => do
    return {
      id := ← Integer.digits? id.toList
      user := ← Integer.read? user
      state := ← ProcessState.read? state.toList
      priority := ← Priority.read? priority.toList
      budget := UInt32.ofNat (← Integer.digits? budget.toList)
      executed := UInt32.ofNat (← Integer.digits? executed.toList)
      name
    }
  | _ => none

theorem ofWords?_entries (r : Row) : ofWords? r.entries = some r := by
  simp only [entries, ofWords?, Integer.digits?_toString, Integer.read?_toString,
    ProcessState.read?_name, Priority.read?_name, Option.bind_eq_bind, Option.bind_some,
    UInt32.ofNat_toNat]
  rfl

/-- The words of a line are those of its entries, wherever these are aligned to. -/
theorem words_line (r : Row) : words r.line = r.entries.flatMap words := by
  rw [line, words_gaps]
  simp only [entries, List.zipWith_cons_cons, List.zipWith_nil_left, List.flatMap_cons,
    words_alignRight]

theorem isWord_entries (named : IsWord r.name) : ∀ entry ∈ r.entries, IsWord entry := by
  have state : IsWord r.state.name := by cases r.state <;> decide
  have priority : IsWord r.priority.name := by cases r.priority <;> decide
  simp only [entries, List.forall_mem_cons, isWord_count, isWord_number, state, priority, named,
    List.not_mem_nil, IsEmpty.forall_iff, implies_true, and_self]

theorem words_line_of_isWord (named : IsWord r.name) : words r.line = r.entries := by
  rw [r.words_line, flatMap_words (isWord_entries named)]

theorem oneLine_line (named : IsWord r.name) : OneLine r.line := by
  have single : ∀ entry ∈ r.entries, OneLine entry := fun entry mem =>
    (isWord_entries named entry mem).oneLine
  simp only [entries, List.forall_mem_cons] at single
  refine oneLine_gaps ?_
  simpa [entries, oneLine_alignRight] using single

end Row

end Listing

/-- What is listed of a status; the machine is not. -/
def Status.row (s : Status) : Listing.Row where
  id := s.id
  user := s.user
  state := s.state
  priority := s.priority
  budget := s.budget
  executed := s.executed
  name := s.name

namespace Listing

def headings : List String :=
  [" PID   userID  state  priority  max CPU  CPU used  filename",
   "-----  ------  -----  --------  -------  --------  --------"]

/-- The lines of a listing without their ends. -/
def lines (rows : List Row) : List String := headings ++ rows.map Row.line

/-- The rows of a listing: two lines are taken from the front, and there is nothing behind the last
line feed. -/
def read? (text : String) : Option (List Row) :=
  ((text.toList.splitOn '\n').drop 2).dropLast.mapM fun line =>
    Row.ofWords? (words (String.ofList line))

/-- A listing can be read. -/
structure Legible (statuses : List Status) : Prop where
  /-- It has two lines of headings and then one line for each status, in order, and they all have
  their ends. -/
  lines : (listing statuses).toList.splitOn '\n' =
    (headings ++ statuses.map fun s => s.row.line).map String.toList ++ [[]]
  /-- The words of a line are what is listed. -/
  words : ∀ s ∈ statuses, words s.row.line =
    [toString s.id, toString s.user, s.state.name, s.priority.name, toString s.budget.toNat,
      toString s.executed.toNat, s.name]
  read : read? (listing statuses) = some (statuses.map Status.row)
  /-- Nothing else that can be listed looks the same. -/
  determines : ∀ others : List Status, (∀ s ∈ others, IsWord s.name) →
    (listing others = listing statuses ↔ others.map Status.row = statuses.map Status.row)

variable {statuses : List Status}

theorem listing_eq (statuses : List Status) :
    listing statuses = String.join ((lines (statuses.map Status.row)).map (· ++ "\n")) := by
  have line : ∀ s : Status, s.listingLine = s.row.line ++ "\n" := by
    simp [Status.listingLine, Row.line, Status.row, Row.entries, String.intercalate_cons_of_ne_nil,
      String.append_assoc]
  have heading : heading = String.join (headings.map (· ++ "\n")) := by decide
  rw [listing, heading, lines, List.map_append, String.join_append, List.map_map, List.map_map,
    List.map_congr_left fun s _ => line s]
  rfl

theorem splitOn_listing (named : ∀ s ∈ statuses, IsWord s.name) :
    (listing statuses).toList.splitOn '\n' =
      (headings ++ statuses.map fun s => s.row.line).map String.toList ++ [[]] := by
  have single : ∀ line ∈ lines (statuses.map Status.row), OneLine line := by
    rw [lines, List.map_map, List.forall_mem_append, List.forall_mem_map]
    exact ⟨by decide, fun s mem => Row.oneLine_line (named s mem)⟩
  have split := splitOn_join (lines (statuses.map Status.row)) ""
  rw [flatMap_splitOn single, String.append_empty] at split
  rw [listing_eq, split, lines, List.map_map]
  rfl

theorem read?_listing (named : ∀ s ∈ statuses, IsWord s.name) :
    read? (listing statuses) = some (statuses.map Status.row) := by
  have below : (((listing statuses).toList.splitOn '\n').drop 2).dropLast =
      statuses.map fun s => s.row.line.toList := by
    rw [splitOn_listing named, headings, List.cons_append, List.cons_append, List.nil_append,
      List.map_cons, List.map_cons, List.cons_append, List.cons_append, List.drop_succ_cons,
      List.drop_succ_cons, List.drop_zero, List.dropLast_concat, List.map_map]
    rfl
  have each : ∀ s ∈ statuses,
      Row.ofWords? (Timeshare.words (String.ofList s.row.line.toList)) = some s.row := by
    intro s mem
    rw [String.ofList_toList, Row.words_line_of_isWord (named s mem)]
    exact Row.ofWords?_entries s.row
  rw [read?, below]
  exact mapM_map_eq_some each

/-- Whatever the numbers are and however long the names, a listing whose names are words can be
read. -/
theorem legible_of_isWord (named : ∀ s ∈ statuses, IsWord s.name) : Legible statuses := by
  constructor
  case lines => exact splitOn_listing named
  case words => exact fun s mem => Row.words_line_of_isWord (named s mem)
  case read => exact read?_listing named
  case determines =>
    intro others theirs
    constructor
    · intro same
      rw [← Option.some_inj, ← read?_listing theirs, ← read?_listing named, same]
    · intro same
      rw [listing_eq, listing_eq, same]

/-- A name with a line feed in it can pass for a further process. -/
example :
    let one (id : ProcessId) (name : String) : Status :=
      { id, user := 1, state := .new, priority := .low, budget := 1, executed := 0, name,
        counter := 0, accumulator := 0, flags := 0, memory := Memory.ofImage [] }
    listing [one 0 ("programs\n" ++ (one 1 "p").row.line)] =
      listing [one 0 "programs", one 1 "p"] := by
  decide +kernel

end Listing

end Timeshare
