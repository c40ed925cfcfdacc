import Timeshare.Status.Basic

/-!
# Status reports

The report on one process: a line for each fact, the memory as four rows of eight words in
hexadecimal, and an empty line.
-/

namespace Timeshare

/-- A word as two hexadecimal digits. -/
def hexWord (word : UInt8) : String :=
  String.ofList
    [(Nat.digitChar (word.toNat / 16)).toUpper, (Nat.digitChar (word.toNat % 16)).toUpper]

/-- A row of memory: every word is followed by a blank. -/
def hexRow (row : List UInt8) : String :=
  String.join (row.map fun word => hexWord word ++ " ") ++ "\n"

def Status.report (s : Status) : String :=
  "PID = " ++ toString s.id ++ "\n" ++
  "userID = " ++ toString s.user ++ "\n" ++
  "state = " ++ s.state.name ++ "\n" ++
  "priority = " ++ s.priority.name ++ "\n" ++
  "max CPU cycles = " ++ toString s.budget.toNat ++ "\n" ++
  "CPU cycles used = " ++ toString s.executed.toNat ++ "\n" ++
  "filename = " ++ s.name ++ "\n" ++
  "PC = " ++ toString s.counter ++ "\n" ++
  "AC = " ++ toString s.accumulator.toNat ++ "\n" ++
  String.join (s.memory.rows.map hexRow) ++ "\n"

end Timeshare
