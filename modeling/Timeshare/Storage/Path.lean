/-!
# File names

A file name is a text of components between slashes. Empty components and dots are left out of
account, but for a leading slash, which makes the name start at the root, and a leading dot.
-/

namespace Timeshare

/-- A step of a file name. -/
inductive Component where
  /-- The leading slash. -/
  | root
  /-- The leading dot. -/
  | here
  /-- Two dots: the directory above. -/
  | up
  | name (text : String)
  deriving DecidableEq, Repr

namespace Path

/-- The texts between the slashes of a name. -/
def segments (path : String) : List String := (path.toList.splitOn '/').map String.ofList

/-- The component that a text between slashes stands for, unless it is left out of account. -/
def component? (segment : String) : Option Component :=
  if segment = "" ∨ segment = "." then none
  else if segment = ".." then some .up
  else some (.name segment)

def components (path : String) : List Component :=
  match segments path with
  | [] => []
  | first :: rest =>
    let lead : List Component :=
      if first = "" then (if rest = [] then [] else [.root])
      else if first = "." then [.here]
      else (component? first).toList
    lead ++ rest.filterMap component?

def componentText : Component → String
  | .root => ""
  | .here => "."
  | .up => ".."
  | .name text => text

def ofComponents (components : List Component) : String :=
  match components with
  | [.root] => "/"
  | _ => String.intercalate "/" (components.map componentText)

/-- Whether a text between slashes is a step of its own behind the start of a name. -/
def isStep (segment : String) : Bool := segment ≠ "" && segment ≠ "."

/-- The names that a name leads through, the longest first, behind those found already: `text` is
what was read of the name, and the texts between slashes follow it. -/
def leading (text : String) (found : List String) : List String → List String
  | [] => found
  | segment :: rest =>
    let text := text ++ "/" ++ segment
    leading text (if isStep segment then text :: found else found) rest

/-- A name and the names of the directories above it, as far as it tells them, innermost first. They
are spelled as in the name, less what follows their last step. -/
def ancestry (path : String) : List String :=
  match segments path with
  | [] => []
  | first :: rest => leading first [if first = "" then "/" else first] rest

/-- A name that does not start at the root, taken from a directory. -/
def join (directory relative : String) : String :=
  if directory.toList.getLast?.all (· == '/') then directory ++ relative
  else directory ++ "/" ++ relative

end Path

end Timeshare
