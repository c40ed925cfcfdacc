import Timeshare.Status.Basic

/-!
# Process listings

A table with one line per process under two heading lines. Columns are aligned to the right; an
entry wider than its column is written out in full.
-/

namespace Timeshare

/-- A text filled up with blanks on its left to a number of characters. -/
def alignRight (width : Nat) (text : String) : String :=
  String.ofList (text.toList.leftpad width ' ')

def Listing.heading : String :=
  " PID   userID  state  priority  max CPU  CPU used  filename\n" ++
  "-----  ------  -----  --------  -------  --------  --------\n"

/-- The line of one process. -/
def Status.listingLine (s : Status) : String :=
  alignRight 5 (toString s.id) ++ "  " ++
  alignRight 6 (toString s.user) ++ "  " ++
  alignRight 5 s.state.name ++ "  " ++
  alignRight 8 s.priority.name ++ "  " ++
  alignRight 7 (toString s.budget.toNat) ++ "  " ++
  alignRight 8 (toString s.executed.toNat) ++ "  " ++
  alignRight 8 s.name ++ "\n"

/-- The table of some processes, in the order given. -/
def listing (statuses : List Status) : String :=
  Listing.heading ++ String.join (statuses.map Status.listingLine)

end Timeshare
