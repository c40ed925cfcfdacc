import Timeshare.Fault
import Timeshare.Storage.Node
import Timeshare.Storage.Path

/-!
# A tree of files

Files and directories in memory. File names that do not start at the root of the tree start at the
home directory. There are no links, so two dots lead back the way a name came. `node_of_resolve`
says that what a file name finds is what the tree has at the place it leads to.
-/

namespace Timeshare

/-- The directory that relative names start at, and the root directory with all there is. -/
structure Storage where
  home : Location
  root : Node := .directory []

/-- Where a file name leads: what is there, if anything, and the names that led there, the last one
first, each with what it was looked up in. -/
structure Standing where
  node : Option Node
  above : List (String × Option Node) := []

namespace Standing

/-- The place where one stands. -/
def location (p : Standing) : Location := (p.above.map Prod.fst).reverse

/-- Goes on to a name in the place where one stands. -/
def down (p : Standing) (name : String) : Standing :=
  ⟨p.node.bind fun node => node.entries.lookup name, (name, p.node) :: p.above⟩

/-- Goes back by one name. There is nothing above the root. -/
def up (p : Standing) : Standing :=
  match p.above with
  | [] => p
  | (_, node) :: above => ⟨node, above⟩

/-- The most bytes that a name in a directory may have. -/
def nameLimit : Nat := 255

/-- One step of a file name. One has to stand in a directory; what the step leads to need not
exist. -/
def enter (p : Standing) (segment : String) : Except Fault Standing :=
  match p.node with
  | none => .error .notFound
  | some (.file _) => .error .notADirectory
  | some (.directory _) =>
    if segment = "." then .ok p
    else if segment = ".." then .ok p.up
    else if nameLimit < segment.utf8ByteSize then .error .nameTooLong
    else .ok (p.down segment)

/-- Whether what is said to be at a place, and on the way there, is what a tree has. -/
def Holds (root : Node) : Option Node → List (String × Option Node) → Prop
  | node, [] => node = some root
  | node, (name, before) :: above =>
    (node = before.bind fun d => d.entries.lookup name) ∧ Holds root before above

theorem Holds.node_eq {root : Node} {node : Option Node} {above : List (String × Option Node)}
    (h : Holds root node above) : node = root.at? (above.map Prod.fst).reverse := by
  induction above generalizing node with
  | nil => exact h
  | cons step above ih =>
    obtain ⟨hn, hb⟩ := h
    rw [List.map_cons, List.reverse_cons, Node.at?_concat, ← ih hb]
    exact hn

theorem Holds.down {root : Node} {p : Standing} (h : Holds root p.node p.above) (name : String) :
    Holds root (p.down name).node (p.down name).above := ⟨rfl, h⟩

theorem Holds.up {root : Node} {p : Standing} (h : Holds root p.node p.above) :
    Holds root p.up.node p.up.above := by
  match p, h with
  | ⟨_, []⟩, h => exact h
  | ⟨_, _ :: _⟩, h => exact h.2

theorem Holds.enter {root : Node} {p q : Standing} (h : Holds root p.node p.above)
    {segment : String} (hq : p.enter segment = .ok q) : Holds root q.node q.above := by
  unfold Standing.enter at hq
  split at hq
  · cases hq
  · cases hq
  · split at hq
    · cases hq
      exact h
    · split at hq
      · cases hq
        exact h.up
      · split at hq
        · cases hq
        · cases hq
          exact h.down segment

end Standing

namespace Storage

/-- What is at a place. -/
def node? (s : Storage) (l : Location) : Option Node := s.root.at? l

/-- Puts something at a place, where it replaces what was there. -/
def put (s : Storage) (l : Location) (node : Node) : Storage := { s with root := s.root.put l node }

/-- The most bytes that a whole file name may have. -/
def pathLimit : Nat := 4095

/-- The steps of a file name. A slash at its end asks for a directory, as one more dot would. -/
def steps (path : String) : List String :=
  (Path.segments path).filter (· ≠ "") ++
    (if path.toList.getLast? = some '/' then ["."] else [])

/-- Where a file name starts. -/
def start (s : Storage) (path : String) : Standing :=
  let top : Standing := ⟨some s.root, []⟩
  if path.toList.head? = some '/' then top else s.home.foldl Standing.down top

/-- Where a file name leads. Everything on the way has to exist, the place itself need not. -/
def resolve (s : Storage) (path : String) : Except Fault Standing :=
  if path.toList.contains '\x00' then .error .nulInName
  else if path = "" then .error .notFound
  else if pathLimit < path.utf8ByteSize then .error .nameTooLong
  else (steps path).foldlM Standing.enter (s.start path)

theorem holds_start (s : Storage) (path : String) :
    Standing.Holds s.root (s.start path).node (s.start path).above := by
  have descend (l : Location) (p : Standing) (h : Standing.Holds s.root p.node p.above) :
      Standing.Holds s.root (l.foldl Standing.down p).node (l.foldl Standing.down p).above := by
    induction l generalizing p with
    | nil => exact h
    | cons name rest ih => exact ih (p.down name) (h.down name)
  unfold start
  split
  · rfl
  · exact descend s.home ⟨some s.root, []⟩ rfl

/-- What a file name finds is what the tree has at the place it leads to. -/
theorem node_of_resolve {s : Storage} {path : String} {p : Standing}
    (h : s.resolve path = .ok p) : p.node = s.node? p.location := by
  have walk (l : List String) (q : Standing) (hq : Standing.Holds s.root q.node q.above)
      (hp : l.foldlM Standing.enter q = .ok p) : Standing.Holds s.root p.node p.above := by
    induction l generalizing q with
    | nil =>
      cases hp
      exact hq
    | cons segment rest ih =>
      rw [List.foldlM_cons] at hp
      cases hs : q.enter segment with
      | error fault =>
        rw [hs] at hp
        cases hp
      | ok next =>
        rw [hs] at hp
        exact ih next (hq.enter hs) hp
  unfold resolve at h
  split at h
  · cases h
  · split at h
    · cases h
    · split at h
      · cases h
      · exact (walk (steps path) (s.start path) (s.holds_start path) h).node_eq

/-- The place of a file or directory that exists. -/
def locate (s : Storage) (path : String) : Except Fault Location := do
  let p ← s.resolve path
  if p.node.isSome then return p.location else .error .notFound

/-- The content of what is expected to be a file. -/
def contentOf : Option Node → Except Fault (List UInt8)
  | none => .error .notFound
  | some (.directory _) => .error .isADirectory
  | some (.file content) => .ok content

def contentAt (s : Storage) (l : Location) : Except Fault (List UInt8) := contentOf (s.node? l)

def read (s : Storage) (path : String) : Except Fault (List UInt8) := do
  contentOf (← s.resolve path).node

/-- Replaces the content of a file, which is created if need be. -/
def write (s : Storage) (path : String) (content : List UInt8) : Except Fault Storage := do
  let p ← s.resolve path
  match p.node with
  | some (.directory _) => .error .isADirectory
  | _ => .ok (s.put p.location (.file content))

def makeDirectory (s : Storage) (path : String) : Except Fault Storage := do
  let p ← s.resolve path
  match p.node with
  | some _ => .error .alreadyExists
  | none => .ok (s.put p.location (.directory []))

/-- Whether a file name leads to a directory. -/
def isDirectory (s : Storage) (path : String) : Bool :=
  match s.resolve path with
  | .ok ⟨some (.directory _), _⟩ => true
  | _ => false

/-- Makes a directory and, where they are missing, those above it, given by their names, innermost
first. A directory that is there already is no fault. What was made stays when a later step
fails. -/
def makeDirectories (s : Storage) : List String → Storage × Option Fault
  | [] => (s, none)
  | path :: above =>
    let retry (s : Storage) : Storage × Option Fault :=
      match s.makeDirectory path with
      | .ok s => (s, none)
      | .error fault => if s.isDirectory path then (s, none) else (s, some fault)
    match s.makeDirectory path with
    | .ok s => (s, none)
    | .error .notFound =>
      match s.makeDirectories above with
      | (s, none) => retry s
      | (s, some fault) => (s, some fault)
    | .error fault => if s.isDirectory path then (s, none) else (s, some fault)

def files (s : Storage) : List (Location × List UInt8) := s.root.files

end Storage

end Timeshare
