import Timeshare.Process.Slice
import Timeshare.Status.Report

/-!
# Records

Every process that ends leaves a record: its last status and how it ended. The text of a record is
the report on that status followed by the wording of the ending.
-/

namespace Timeshare

/-- What remains of a process. -/
structure Record where
  status : Status
  ending : Ending
  deriving DecidableEq, Repr

def Record.text (r : Record) : String := r.status.report ++ r.ending.message

end Timeshare
