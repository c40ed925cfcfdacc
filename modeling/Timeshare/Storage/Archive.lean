import Timeshare.Host

/-!
# Archives

An archive is a world without files: it has images by name and collects records in the order in
which they are offered. Records of certain names may be refused.
-/

namespace Timeshare

/-- Images at hand and records collected. -/
structure Archive where
  /-- What reading a name yields. -/
  images : List (String × Except Fault (List UInt8)) := []
  /-- What reading any other name runs into. -/
  absent : Fault := .notFound
  /-- The names whose records are refused, and why. -/
  refused : List (String × Fault) := []
  /-- The records collected, oldest first. -/
  records : List Record := []

namespace Archive

def image (a : Archive) (name : String) : Except Fault (List UInt8) :=
  (a.images.lookup name).getD (.error a.absent)

/-- Collects a record unless its name is refused. -/
def collect (a : Archive) (r : Record) : Archive × Option Fault :=
  match a.refused.lookup r.status.name with
  | some fault => (a, some fault)
  | none => ({ a with records := a.records ++ [r] }, none)

def host : Host Archive where
  load := image
  keep := collect

end Archive

end Timeshare
