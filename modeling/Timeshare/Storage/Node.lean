/-!
# Files and directories

A node is a file with its content or a directory with the nodes in it. A place below a node is the
list of the names that lead there. `at?_put` says that what is put at a place is found there, and
`at?_put_of_not_prefix` that a place elsewhere keeps what it had.
-/

namespace Timeshare

/-- A place in a tree: the names that lead there, the outermost first. -/
abbrev Location := List String

/-- A file or a directory. -/
inductive Node where
  | file (content : List UInt8)
  | directory (entries : List (String × Node))

namespace Node

/-- What is in a directory; in a file there is nothing. -/
def entries : Node → List (String × Node)
  | file _ => []
  | directory entries => entries

/-- What is at a place below a node. -/
def at? : Node → Location → Option Node
  | node, [] => some node
  | node, name :: rest => (node.entries.lookup name).bind fun below => below.at? rest

/-- A node as a directory with one entry set. -/
def withEntry (node : Node) (name : String) (entry : Node) : Node :=
  directory ((name, entry) :: node.entries.filter fun e => e.1 ≠ name)

/-- Puts something at a place below a node, where it replaces what was there. What is on the way is
a directory from then on. -/
def put : Node → Location → Node → Node
  | _, [], new => new
  | node, name :: rest, new =>
    node.withEntry name (((node.entries.lookup name).getD (directory [])).put rest new)

mutual

/-- The files below a node, with their places. -/
def files : Node → List (Location × List UInt8)
  | file content => [([], content)]
  | directory entries => filesAmong entries

/-- The files below some entries of a directory, with their places in the directory. -/
def filesAmong : List (String × Node) → List (Location × List UInt8)
  | [] => []
  | (name, node) :: rest =>
    (node.files.map fun (l, content) => (name :: l, content)) ++ filesAmong rest

end

/-- One name further on: what is there is looked up in what was there before. -/
theorem at?_concat (node : Node) (l : Location) (name : String) :
    node.at? (l ++ [name]) = (node.at? l).bind fun below => below.entries.lookup name := by
  induction l generalizing node with
  | nil => cases h : node.entries.lookup name <;> simp [at?, h]
  | cons first rest ih => cases h : node.entries.lookup first <;> simp [at?, h, ih]

/-- Setting an entry changes that entry alone. -/
theorem lookup_withEntry (node : Node) (name : String) (entry : Node) (other : String) :
    (node.withEntry name entry).entries.lookup other =
      if other = name then some entry else node.entries.lookup other := by
  have kept (es : List (String × Node)) (h : other ≠ name) :
      (es.filter fun e => e.1 ≠ name).lookup other = es.lookup other := by
    induction es with
    | nil => rfl
    | cons e es ih =>
      obtain ⟨key, below⟩ := e
      by_cases hk : key = name
      · subst hk
        rw [List.filter_cons_of_neg (by simp), List.lookup_cons, beq_false_of_ne h]
        exact ih
      · rw [List.filter_cons_of_pos (by simpa using hk), List.lookup_cons, List.lookup_cons, ih]
  change ((name, entry) :: node.entries.filter fun e => e.1 ≠ name).lookup other = _
  by_cases h : other = name
  · simp [h]
  · rw [List.lookup_cons, beq_false_of_ne h, if_neg h]
    exact kept node.entries h

/-- What is put at a place is found there. -/
theorem at?_put (node : Node) (l : Location) (new : Node) : (node.put l new).at? l = some new := by
  induction l generalizing node with
  | nil => rfl
  | cons name rest ih => simp [put, at?, lookup_withEntry, ih]

/-- A place that lies neither under the one where something is put nor above it keeps what it
had. -/
theorem at?_put_of_not_prefix {l m : Location} (hl : ¬ l <+: m) (hm : ¬ m <+: l)
    (node new : Node) : (node.put l new).at? m = node.at? m := by
  induction l generalizing m node with
  | nil => simp at hl
  | cons name rest ih =>
    match m with
    | [] => simp at hm
    | other :: further =>
      rw [put, at?, at?, lookup_withEntry]
      by_cases h : other = name
      · subst h
        simp only [List.cons_prefix_cons, true_and] at hl hm
        rw [if_pos rfl, Option.bind_some, ih hl hm]
        cases node.entries.lookup other with
        | some below => rfl
        | none =>
          cases further with
          | nil => simp at hm
          | cons => rfl
      · rw [if_neg h]

end Node

end Timeshare
