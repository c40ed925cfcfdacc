import Timeshare.Storage.Path

/-!
# Where records go

The record of a process is a file named after the process, with `.core` at the end. It stands beside
the image of the process or, if a directory was chosen for records, under that directory, where the
whole name of the process is kept but for a leading slash.
-/

namespace Timeshare

/-- The place for records. -/
inductive Placement where
  | besideImage
  | under (directory : String)
  deriving DecidableEq, Repr

/-- The file for the record of a process of that name. -/
def Placement.pathFor (placement : Placement) (name : String) : String :=
  match placement with
  | besideImage => name ++ ".core"
  | under directory =>
    Path.join directory
      (Path.ofComponents ((Path.components (name ++ ".core")).filter (· ≠ .root)))

end Timeshare
