import Timeshare.Host
import Timeshare.Process.Basic
import Timeshare.Storage.Placement
import Timeshare.Storage.Tree

/-!
# A tree of files as a host

Images are files of which at most 32 bytes are read. A record replaces the file it goes to. Under a
directory for records, missing directories are made on the way.
-/

namespace Timeshare

namespace Storage

/-- The image in a file: as many of its bytes as a memory holds. -/
def readImage (s : Storage) (path : String) : Except Fault (List UInt8) :=
  (s.read path).map fun content => content.take wordCount

def writeText (s : Storage) (path : String) (text : String) : Storage × Option Fault :=
  match s.write path text.toUTF8.data.toList with
  | .ok s => (s, none)
  | .error fault => (s, some fault)

/-- Writes a record where its placement says. -/
def writeRecord (placement : Placement) (s : Storage) (r : Record) : Storage × Option Fault :=
  let path := placement.pathFor r.status.name
  match placement with
  | .besideImage => s.writeText path r.text
  | .under _ =>
    match s.makeDirectories (Path.ancestry path).tail with
    | (s, none) => s.writeText path r.text
    | (s, some fault) => (s, some fault)

/-- How many bytes of a file are read at a time. -/
def blockSize : Nat := 8192

/-- The next bytes of the file at a place; there are none behind its end. -/
def blockAt (l : Location) (s : Storage) (offset : Nat) : Except Fault (List UInt8) :=
  (s.contentAt l).map fun content => (content.drop offset).take blockSize

/-- The most bytes in a record of a process whose image was read from a file: its name leads to that
file, and all the rest of a record is shorter than 512 bytes. -/
def recordLimit : Nat := pathLimit + 512

/-- The most bytes that the file at a place comes to hold when nothing but such records is
written. -/
def extent (s : Storage) (l : Location) : Nat :=
  match s.node? l with
  | some (.file content) => max content.length recordLimit
  | _ => recordLimit

/-- The tree of files as a host. -/
def host (placement : Placement) : Host Storage where
  load := readImage
  keep := writeRecord placement

end Storage

end Timeshare
