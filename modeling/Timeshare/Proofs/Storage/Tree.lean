import Mathlib
import Timeshare.Proofs.Storage.Path
import Timeshare.Storage.Files

/-!
# Places in a tree of files

At a place there is a file with its content, a directory or nothing, and that is all that matters
(`kind?`): something put where there is room changes its own place only (`kind?_put`). Where a file
name leads is a matter of places, too: every step has to be taken in a directory (`Leads`), so a
name leads to the same place as long as no directory is lost (`Leads.mono`). What reading, writing
and making a directory come to is said in these terms (`read_eq_ok_iff`, `write_eq_ok_iff`,
`makeDirectory_eq_ok_iff`).
-/

namespace Timeshare

/-- What there is at a place, apart from what is in a directory. -/
inductive Kind where
  | file (content : List UInt8)
  | directory
  deriving DecidableEq, Repr

namespace Node

variable {node new : Node} {l front m : Location} {name : String} {rest : List String}

def kind : Node → Kind
  | file content => .file content
  | directory _ => .directory

theorem at?_append (node : Node) (l m : Location) :
    node.at? (l ++ m) = (node.at? l).bind fun below => below.at? m := by
  induction l generalizing node with
  | nil => rfl
  | cons name l ih =>
    rw [List.cons_append, at?, at?]
    cases node.entries.lookup name with
    | none => rfl
    | some below => exact ih below

/-- Nothing is in what is not a directory. -/
theorem kind_of_at?_append (h : node.at? (l ++ name :: rest) ≠ none) :
    (node.at? l).map kind = some .directory := by
  rw [at?_append] at h
  cases found : node.at? l with
  | none => simp [found] at h
  | some below =>
    cases below with
    | file => simp [found, at?, entries] at h
    | directory => rfl

/-- On the way to something that was put somewhere there are directories. -/
theorem kind_at?_put_append (node : Node) (l : Location) (name : String) (rest : List String)
    (new : Node) : ((node.put (l ++ name :: rest) new).at? l).map kind = some .directory := by
  induction l generalizing node with
  | nil => rfl
  | cons first l ih =>
    rw [List.cons_append, put, at?, lookup_withEntry, if_pos rfl, Option.bind_some]
    exact ih _

/-- Something with nothing in it, put in a directory where no directory is, changes its own place
only. -/
theorem kind_at?_put (above : (node.at? front).map kind = some .directory)
    (free : (node.at? (front ++ [name])).map kind ≠ some .directory) (bare : new.entries = [])
    (m : Location) :
    ((node.put (front ++ [name]) new).at? m).map kind =
      if m = front ++ [name] then some new.kind else (node.at? m).map kind := by
  by_cases own : m = front ++ [name]
  · rw [own, if_pos rfl, at?_put, Option.map_some]
  rw [if_neg own]
  by_cases below : front ++ [name] <+: m
  · obtain ⟨further, rfl⟩ := below
    cases further with
    | nil => simp at own
    | cons first further =>
      have before : node.at? (front ++ [name] ++ first :: further) = none := by
        by_contra found
        exact free (kind_of_at?_append found)
      rw [before, at?_append, at?_put, Option.bind_some, at?, bare]
      rfl
  by_cases way : m <+: front ++ [name]
  · have inside : m <+: front := (List.prefix_concat_iff.mp way).resolve_left own
    obtain ⟨between, rfl⟩ := inside
    have before : (node.at? m).map kind = some .directory := by
      cases between with
      | nil => rwa [List.append_nil] at above
      | cons first between =>
        have found : node.at? (m ++ first :: between) ≠ none := by
          intro none
          rw [none] at above
          cases above
        exact kind_of_at?_append found
    rw [before, List.append_assoc]
    cases between with
    | nil => exact kind_at?_put_append ..
    | cons first between => exact kind_at?_put_append ..
  · rw [ at?_put_of_not_prefix below way]

end Node

namespace Storage

variable {s t : Storage} {l m : Location} {path : String} {content : List UInt8}

/-! ## What is at a place -/

/-- What there is at a place. -/
def kind? (s : Storage) (l : Location) : Option Kind := (s.node? l).map Node.kind

/-- There is a directory to put something in, and no directory in its place. -/
def HasRoom (s : Storage) (l : Location) : Prop :=
  (∃ front name, l = front ++ [name] ∧ s.kind? front = some .directory) ∧
    s.kind? l ≠ some .directory

theorem kind?_put (room : s.HasRoom l) {new : Node} (bare : new.entries = []) (m : Location) :
    (s.put l new).kind? m = if m = l then some new.kind else s.kind? m := by
  obtain ⟨⟨front, name, rfl, above⟩, free⟩ := room
  exact Node.kind_at?_put above free bare m

theorem contentAt_eq_ok_iff : s.contentAt l = .ok content ↔ s.kind? l = some (.file content) := by
  rw [contentAt, kind?]
  cases s.node? l with
  | none => simp [contentOf]
  | some node => cases node <;> simp [contentOf, Node.kind]

/-! ## Where a file name leads -/

/-- A step of a file name that can be taken in a directory. -/
def Fits (segment : String) : Prop :=
  segment = "." ∨ segment = ".." ∨ segment.utf8ByteSize ≤ Standing.nameLimit

/-- Where a step leads to. There is nothing above the root. -/
def next (l : Location) (segment : String) : Location :=
  if segment = "." then l else if segment = ".." then l.dropLast else l ++ [segment]

/-- Some steps lead from one place to another, and each of them is taken in a directory. -/
def Leads (s : Storage) : Location → List String → Location → Prop
  | l, [], m => m = l
  | l, segment :: rest, m =>
    s.kind? l = some .directory ∧ Fits segment ∧ s.Leads (next l segment) rest m

/-- Where a file name starts. -/
def origin (s : Storage) (path : String) : Location :=
  if path.toList.head? = some '/' then [] else s.home

/-- A file name as the world takes it. -/
structure Sound (path : String) : Prop where
  called : path ≠ ""
  text : '\x00' ∉ path.toList
  short : path.utf8ByteSize ≤ pathLimit

/-- A file name leads to a place. -/
def Names (s : Storage) (path : String) (l : Location) : Prop :=
  Sound path ∧ s.Leads (s.origin path) (steps path) l

theorem location_up (p : Standing) : p.up.location = p.location.dropLast := by
  obtain ⟨node, above⟩ := p
  cases above with
  | nil => rfl
  | cons step above => simp [Standing.up, Standing.location]

theorem location_down (p : Standing) (name : String) :
    (p.down name).location = p.location ++ [name] := by
  simp [Standing.down, Standing.location]

/-- One step, in terms of places. -/
theorem enter_eq_ok_iff {p : Standing} (holds : Standing.Holds s.root p.node p.above)
    {segment : String} :
    (∃ q, p.enter segment = .ok q ∧ q.location = m) ↔
      s.kind? p.location = some .directory ∧ Fits segment ∧ m = next p.location segment := by
  have found : s.node? p.location = p.node := holds.node_eq.symm
  rw [kind?, found, Standing.enter, next, Fits]
  cases p.node with
  | none => simp
  | some node =>
    cases node with
    | file => simp [Node.kind]
    | directory =>
      simp only [Option.map_some, Node.kind, true_and]
      split
      case isTrue dot => simp [dot, eq_comm]
      case isFalse dot =>
        split
        case isTrue up => simp [up, location_up, eq_comm]
        case isFalse up =>
          split
          case isTrue long => simp [dot, up, Nat.not_le.mpr long]
          case isFalse short => simp [dot, up, Nat.not_lt.mp short, location_down, eq_comm]

theorem foldlM_enter_eq_ok_iff {p : Standing} (holds : Standing.Holds s.root p.node p.above)
    {segments : List String} :
    (∃ q, segments.foldlM Standing.enter p = .ok q ∧ q.location = m) ↔
      s.Leads p.location segments m := by
  induction segments generalizing p with
  | nil => simp [Leads, pure, Except.pure, eq_comm]
  | cons segment rest ih =>
    rw [List.foldlM_cons, Leads]
    cases entered : p.enter segment with
    | error fault =>
      constructor
      · rintro ⟨q, read, -⟩
        cases read
      · rintro ⟨directory, fits, -⟩
        obtain ⟨q, taken, -⟩ := (enter_eq_ok_iff holds).mpr ⟨directory, fits, rfl⟩
        rw [entered] at taken
        cases taken
    | ok q =>
      obtain ⟨directory, fits, same⟩ := (enter_eq_ok_iff holds).mp ⟨q, entered, rfl⟩
      rw [← same, ← ih (holds.enter entered)]
      exact ⟨fun found => ⟨directory, fits, found⟩, fun found => found.2.2⟩

theorem location_start (s : Storage) (path : String) : (s.start path).location = s.origin path := by
  have descend (l : Location) (p : Standing) :
      (l.foldl Standing.down p).location = p.location ++ l := by
    induction l generalizing p with
    | nil => simp
    | cons name rest ih => rw [List.foldl_cons, ih, location_down, List.append_assoc]; rfl
  rw [start, origin]
  split
  · rfl
  · exact (descend s.home _).trans (List.nil_append _)

theorem resolve_of_sound (sound : Sound path) :
    s.resolve path = (steps path).foldlM Standing.enter (s.start path) := by
  rw [resolve, if_neg (by simpa using sound.text), if_neg sound.called,
    if_neg (Nat.not_lt.mpr sound.short)]

theorem sound_of_resolve {p : Standing} (h : s.resolve path = .ok p) : Sound path := by
  rw [resolve] at h
  split at h
  · cases h
  · split at h
    · cases h
    · split at h
      · cases h
      case isFalse text called short =>
        exact ⟨called, by simpa using text, Nat.not_lt.mp short⟩

/-- Where a file name leads is a matter of what is at the places on the way. -/
theorem resolve_eq_ok_iff :
    (∃ p, s.resolve path = .ok p ∧ p.location = l) ↔ s.Names path l := by
  have walk : (∃ p, (steps path).foldlM Standing.enter (s.start path) = .ok p ∧ p.location = l) ↔
      s.Leads (s.origin path) (steps path) l := by
    rw [← location_start]
    exact foldlM_enter_eq_ok_iff (s.holds_start path)
  rw [Names, ← walk]
  constructor
  · rintro ⟨p, read, same⟩
    have sound := sound_of_resolve read
    exact ⟨sound, p, by rwa [← resolve_of_sound sound], same⟩
  · rintro ⟨sound, p, read, same⟩
    exact ⟨p, by rwa [resolve_of_sound sound], same⟩

/-- A name leads to a place as long as all directories stay. -/
theorem Leads.mono {start : Location} {segments : List String}
    (stay : ∀ m, s.kind? m = some .directory → t.kind? m = some .directory)
    (leads : s.Leads start segments l) : t.Leads start segments l := by
  induction segments generalizing start with
  | nil => exact leads
  | cons segment rest ih => exact ⟨stay _ leads.1, leads.2.1, ih leads.2.2⟩

theorem leads_append {start : Location} {a b : List String} :
    s.Leads start (a ++ b) l ↔ ∃ m, s.Leads start a m ∧ s.Leads m b l := by
  induction a generalizing start with
  | nil => simp [Leads]
  | cons segment a ih => simp only [List.cons_append, Leads, ih]; tauto

theorem kind?_dropLast (h : s.kind? l = some .directory) :
    s.kind? l.dropLast = some .directory := by
  rcases List.eq_nil_or_concat' l with rfl | ⟨front, name, rfl⟩
  · exact h
  · rw [List.dropLast_concat]
    have found : s.root.at? (front ++ [name]) ≠ none := by
      intro none
      rw [kind?, node?, none] at h
      cases h
    exact Node.kind_of_at?_append found

theorem steps_ne_nil (called : path ≠ "") : steps path ≠ [] := by
  intro none
  obtain ⟨nothing, slash⟩ := List.append_eq_nil_iff.mp none
  have empty : ∀ segment ∈ Path.segments path, segment = "" := by
    simpa [List.filter_eq_nil_iff] using nothing
  obtain ⟨last, single, rfl | ⟨front, rfl⟩⟩ := Path.exists_last path
  · rw [Path.segments_of_single single] at empty
    exact called (empty _ (List.mem_singleton_self _))
  · rw [Path.segments_slash, Path.segments_of_single single] at empty
    obtain rfl := empty last (List.mem_append_right _ (List.mem_singleton_self _))
    simp at slash

/-- A name leads to a directory, or to a place where there is room for something. -/
theorem hasRoom_of_names (names : s.Names path l) (free : s.kind? l ≠ some .directory) :
    s.HasRoom l := by
  obtain ⟨sound, leads⟩ := names
  obtain ⟨front, last, split⟩ := (List.eq_nil_or_concat' _).resolve_left (steps_ne_nil sound.called)
  rw [split, leads_append] at leads
  obtain ⟨above, -, directory, -, rfl⟩ := leads
  refine ⟨?_, free⟩
  rw [next] at free ⊢
  split
  case isTrue dot =>
    rw [if_pos dot] at free
    exact absurd directory free
  case isFalse dot =>
    rw [if_neg dot] at free
    split
    case isTrue up =>
      rw [if_pos up] at free
      exact absurd (kind?_dropLast directory) free
    case isFalse => exact ⟨above, last, rfl, directory⟩

/-! ## What operations come to -/

theorem bind_eq_ok_iff {α β : Type} {x : Except Fault α} {f : α → Except Fault β} {b : β} :
    (x >>= f) = .ok b ↔ ∃ a, x = .ok a ∧ f a = .ok b := by
  cases x with
  | error => simp [Bind.bind, Except.bind]
  | ok a => simp [Bind.bind, Except.bind]

/-- What is made of where a file name leads. -/
theorem resolve_bind_eq_ok_iff {α : Type} {f : Option Node → Location → Except Fault α} {a : α} :
    (s.resolve path >>= fun p => f p.node p.location) = .ok a ↔
      ∃ l, s.Names path l ∧ f (s.node? l) l = .ok a := by
  rw [bind_eq_ok_iff]
  constructor
  · rintro ⟨p, read, made⟩
    rw [node_of_resolve read] at made
    exact ⟨p.location, resolve_eq_ok_iff.mp ⟨p, read, rfl⟩, made⟩
  · rintro ⟨l, names, made⟩
    obtain ⟨p, read, rfl⟩ := resolve_eq_ok_iff.mpr names
    rw [← node_of_resolve read] at made
    exact ⟨p, read, made⟩

theorem locate_eq_ok_iff : s.locate path = .ok l ↔ s.Names path l ∧ s.kind? l ≠ none := by
  refine (resolve_bind_eq_ok_iff (f := fun node l => if node.isSome then .ok l else _)).trans ?_
  constructor
  · rintro ⟨m, names, found⟩
    split at found
    case isTrue there =>
      cases found
      exact ⟨names, by simpa [kind?, Option.isSome_iff_ne_none] using there⟩
    case isFalse => cases found
  · rintro ⟨names, there⟩
    exact ⟨l, names, if_pos (by simpa [kind?, Option.isSome_iff_ne_none] using there)⟩

theorem read_eq_ok_iff :
    s.read path = .ok content ↔ ∃ l, s.Names path l ∧ s.contentAt l = .ok content :=
  resolve_bind_eq_ok_iff (f := fun node _ => contentOf node)

theorem write_eq_ok_iff :
    s.write path content = .ok t ↔
      ∃ l, s.Names path l ∧ s.kind? l ≠ some .directory ∧ t = s.put l (.file content) := by
  have whole : s.write path content = s.resolve path >>= fun p =>
      if p.node.map Node.kind = some .directory then .error .isADirectory
      else .ok (s.put p.location (.file content)) := by
    rw [write]
    congr 1
    funext p
    rcases p.node with _ | ⟨_ | _⟩ <;> simp [Node.kind]
  rw [whole, resolve_bind_eq_ok_iff (f := fun node l =>
    if node.map Node.kind = some .directory then .error .isADirectory
    else .ok (s.put l (.file content)))]
  refine exists_congr fun l => and_congr_right fun _ => ?_
  rw [kind?]
  split
  case isTrue directory => simp [directory]
  case isFalse other => simp [other, eq_comm]

theorem makeDirectory_eq_ok_iff :
    s.makeDirectory path = .ok t ↔
      ∃ l, s.Names path l ∧ s.kind? l = none ∧ t = s.put l (.directory []) := by
  have whole : s.makeDirectory path = s.resolve path >>= fun p =>
      if p.node.map Node.kind = none then .ok (s.put p.location (.directory []))
      else .error .alreadyExists := by
    rw [makeDirectory]
    congr 1
    funext p
    rcases p.node with _ | node <;> simp
  rw [whole, resolve_bind_eq_ok_iff (f := fun node l =>
    if node.map Node.kind = none then .ok (s.put l (.directory [])) else .error .alreadyExists)]
  refine exists_congr fun l => and_congr_right fun _ => ?_
  rw [kind?]
  split
  case isTrue free => simp [free, eq_comm]
  case isFalse taken => simp [taken]

end Storage

end Timeshare
