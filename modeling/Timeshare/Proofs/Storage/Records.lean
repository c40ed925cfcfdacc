import Mathlib
import Timeshare.Proofs.Simulation
import Timeshare.Proofs.Storage.Tree
import Timeshare.Storage.Files

/-!
# Records on file

A record that is taken is a file from then on, and nothing else changes but that directories may
have been made; a record that is lost leaves at most directories behind (`writeRecord_eq`).
`Delivered` tells of records offered one after another which of them were taken and where each of
them went. So a file holds the last record that went there, whole, or else what it held before, and
there is no other file (`Delivered.leaves`).
-/

namespace Timeshare

namespace Storage

variable {placement : Placement} {s t u : Storage} {l m : Location} {path : String}
  {content : List UInt8} {r : Record} {records : List Record} {written : List (Location × Record)}

/-! ## Directories on the way -/

/-- A directory was made where nothing was. Beside images none is made. -/
structure Made (placement : Placement) (s t : Storage) (l : Location) : Prop where
  allowed : placement ≠ .besideImage
  before : s.kind? l = none
  after : t.kind? l = some .directory

/-- At a place there is what was there before, or a directory was made. -/
def Stays (placement : Placement) (s t : Storage) (l : Location) : Prop :=
  t.kind? l = s.kind? l ∨ Made placement s t l

theorem Stays.trans (h : Stays placement s t l) (more : Stays placement t u l) :
    Stays placement s u l := by
  rcases h with same | made
  · rcases more with still | made
    · exact .inl (still.trans same)
    · exact .inr ⟨made.allowed, same ▸ made.before, made.after⟩
  · rcases more with still | again
    · exact .inr ⟨made.allowed, made.before, still.trans made.after⟩
    · have before := again.before
      rw [made.after] at before
      cases before

theorem Stays.directory (h : Stays placement s t l) (there : s.kind? l = some .directory) :
    t.kind? l = some .directory := by
  rcases h with same | made
  · rw [same, there]
  · exact made.after

theorem Stays.file_iff (h : Stays placement s t l) :
    t.kind? l = some (.file content) ↔ s.kind? l = some (.file content) := by
  rcases h with same | made
  · rw [same]
  · simp [made.before, made.after]

/-- One world has all that another one has, and maybe more directories. -/
structure Extends (placement : Placement) (s t : Storage) : Prop where
  home : t.home = s.home
  stays : ∀ l, Stays placement s t l

theorem Extends.refl (s : Storage) : Extends placement s s := ⟨rfl, fun _ => .inl rfl⟩

theorem Extends.trans (h : Extends placement s t) (more : Extends placement t u) :
    Extends placement s u :=
  ⟨more.home.trans h.home, fun l => (h.stays l).trans (more.stays l)⟩

theorem extends_of_makeDirectory (allowed : placement ≠ .besideImage)
    (h : s.makeDirectory path = .ok t) : Extends placement s t := by
  obtain ⟨l, names, free, rfl⟩ := makeDirectory_eq_ok_iff.mp h
  have after := fun m => kind?_put (hasRoom_of_names names (by simp [free]))
    (rfl : (Node.directory []).entries = []) m
  refine ⟨rfl, fun m => ?_⟩
  by_cases own : m = l
  · exact .inr ⟨allowed, own ▸ free, by rw [after, if_pos own]; rfl⟩
  · exact .inl (by rw [after, if_neg own])

theorem extends_makeDirectories (allowed : placement ≠ .besideImage) (s : Storage)
    (paths : List String) : Extends placement s (s.makeDirectories paths).1 := by
  induction paths with
  | nil => exact .refl s
  | cons path above ih =>
    have accept (u : Storage) (fault : Fault) (h : Extends placement s u) :
        Extends placement s (if u.isDirectory path then (u, none) else (u, some fault)).1 := by
      split <;> exact h
    simp only [makeDirectories]
    split
    case h_1 made => exact extends_of_makeDirectory allowed made
    case h_2 =>
      revert ih
      rcases s.makeDirectories above with ⟨u, _ | fault⟩
      · intro ih
        dsimp only
        split
        case h_1 made => exact ih.trans (extends_of_makeDirectory allowed made)
        case h_2 fault _ => exact accept u fault ih
      · exact fun ih => ih
    case h_3 fault _ _ => exact accept s fault (.refl s)

/-! ## One record -/

/-- What a record has to say, in bytes. -/
def bytes (r : Record) : List UInt8 := r.text.toUTF8.data.toList

/-- A record was taken: it is a file where its name leads to. Directories may have been made
before. -/
structure Takes (placement : Placement) (s : Storage) (r : Record) (l : Location) (t : Storage) :
    Prop where
  home : t.home = s.home
  names : t.Names (placement.pathFor r.status.name) l
  own : t.kind? l = some (.file (bytes r))
  stays : ∀ m, m ≠ l → Stays placement s t m
  free : s.kind? l ≠ some .directory

theorem Takes.directory (h : Takes placement s r l t) (there : s.kind? m = some .directory) :
    t.kind? m = some .directory := by
  have other : m ≠ l := by
    rintro rfl
    exact h.free there
  exact (h.stays m other).directory there

theorem takes_of_write (before : Extends placement s u)
    (h : u.write (placement.pathFor r.status.name) (bytes r) = .ok t) :
    ∃ l, Takes placement s r l t := by
  obtain ⟨l, names, free, rfl⟩ := write_eq_ok_iff.mp h
  have after := fun m => kind?_put (hasRoom_of_names names free)
    (rfl : (Node.file (bytes r)).entries = []) m
  have others (m : Location) (other : m ≠ l) :
      (u.put l (.file (bytes r))).kind? m = u.kind? m := by rw [after, if_neg other]
  have stay (m : Location) (there : u.kind? m = some .directory) :
      (u.put l (.file (bytes r))).kind? m = some .directory := by
    rw [others m (by rintro rfl; exact free there), there]
  exact ⟨l, before.home, ⟨names.1, names.2.mono stay⟩, by rw [after, if_pos rfl]; rfl,
    fun m other => (before.stays m).trans (.inl (others m other)),
    fun there => free ((before.stays l).directory there)⟩

/-- A record is taken, or it is lost and no file has changed. -/
theorem writeRecord_eq (placement : Placement) (s : Storage) (r : Record) :
    (∃ l t, s.writeRecord placement r = (t, none) ∧ Takes placement s r l t) ∨
    ∃ t fault, s.writeRecord placement r = (t, some fault) ∧ Extends placement s t := by
  have write (u : Storage) (before : Extends placement s u) :
      (∃ l t, u.writeText (placement.pathFor r.status.name) r.text = (t, none) ∧
        Takes placement s r l t) ∨
      ∃ t fault, u.writeText (placement.pathFor r.status.name) r.text = (t, some fault) ∧
        Extends placement s t := by
    rw [writeText]
    cases written : u.write (placement.pathFor r.status.name) r.text.toUTF8.data.toList with
    | ok t =>
      obtain ⟨l, takes⟩ := takes_of_write before written
      exact .inl ⟨l, t, rfl, takes⟩
    | error fault => exact .inr ⟨u, fault, rfl, before⟩
  cases placement with
  | besideImage => exact write s (.refl s)
  | under directory =>
    have allowed : Placement.under directory ≠ .besideImage := by simp
    have made := extends_makeDirectories allowed s
      (Path.ancestry ((Placement.under directory).pathFor r.status.name)).tail
    rw [writeRecord]
    revert made
    rcases s.makeDirectories _ with ⟨u, _ | fault⟩
    · exact write u
    · exact fun made => .inr ⟨u, fault, rfl, made⟩

/-! ## Records one after another -/

/-- Records were offered one after another. Of those that were taken it is told, in order, where
each of them went. -/
inductive Delivered (placement : Placement) :
    Storage → List Record → List (Location × Record) → Storage → Prop
  | nothing (s : Storage) : Delivered placement s [] [] s
  | taken {s t u : Storage} {r : Record} {l : Location} {records : List Record}
      {written : List (Location × Record)} (kept : s.writeRecord placement r = (t, none))
      (located : t.locate (placement.pathFor r.status.name) = .ok l)
      (later : Delivered placement t records written u) :
      Delivered placement s (r :: records) ((l, r) :: written) u
  | lost {s t u : Storage} {r : Record} {fault : Fault} {records : List Record}
      {written : List (Location × Record)} (kept : s.writeRecord placement r = (t, some fault))
      (later : Delivered placement t records written u) :
      Delivered placement s (r :: records) written u

theorem exists_delivered (placement : Placement) (s : Storage) (records : List Record) :
    ∃ written, Delivered placement s records written ((host placement).keepAll s records) := by
  induction records generalizing s with
  | nil => exact ⟨[], .nothing s⟩
  | cons r records ih =>
    have cons : (host placement).keepAll s (r :: records) =
        (host placement).keepAll (s.writeRecord placement r).1 records := rfl
    rw [cons]
    obtain ⟨written, later⟩ := ih (s.writeRecord placement r).1
    rcases writeRecord_eq placement s r with ⟨l, t, kept, takes⟩ | ⟨t, fault, kept, -⟩
    · rw [kept] at later ⊢
      have there : t.kind? l ≠ none := by simp [takes.own]
      exact ⟨_, .taken kept (locate_eq_ok_iff.mpr ⟨takes.names, there⟩) later⟩
    · rw [kept] at later ⊢
      exact ⟨_, .lost kept later⟩

/-- The last record that went to a place. -/
def lastAt (l : Location) (written : List (Location × Record)) : Option Record :=
  written.reverse.lookup l

theorem lastAt_cons (l m : Location) (r : Record) (written : List (Location × Record)) :
    lastAt l ((m, r) :: written) = (lastAt l written).or (if l = m then some r else none) := by
  rw [lastAt, List.reverse_cons, List.lookup_append, lastAt, List.lookup_cons, List.lookup_nil]
  by_cases own : l = m <;> simp [own, beq_eq_false_iff_ne.mpr]

/-- What records leave in a world. -/
structure Leaves (placement : Placement) (s : Storage) (written : List (Location × Record))
    (t : Storage) : Prop where
  home : t.home = s.home
  /-- A file to which a record went holds the last one that did, and nothing else. -/
  last : ∀ l r, lastAt l written = some r → t.kind? l = some (.file (bytes r))
  /-- Elsewhere there is what was there before, or a directory was made. -/
  other : ∀ l, lastAt l written = none → Stays placement s t l
  /-- No directory is lost. -/
  directory : ∀ l, s.kind? l = some .directory → t.kind? l = some .directory

/-- What comes behind a record that was lost. -/
theorem Leaves.lose (h : Leaves placement t written u) (lost : Extends placement s t) :
    Leaves placement s written u where
  home := h.home.trans lost.home
  last := h.last
  other := fun l none => (lost.stays l).trans (h.other l none)
  directory := fun l there => h.directory l ((lost.stays l).directory there)

/-- What comes behind a record that was taken. -/
theorem Leaves.take (h : Leaves placement t written u) (taken : Takes placement s r l t) :
    Leaves placement s ((l, r) :: written) u where
  home := h.home.trans taken.home
  last := by
    intro m q last
    rw [lastAt_cons, Option.or_eq_some_iff] at last
    rcases last with later | ⟨none, own⟩
    · exact h.last m q later
    · obtain ⟨rfl, rfl⟩ : m = l ∧ r = q := by simpa using own
      rcases h.other m none with same | made
      · rw [same, taken.own]
      · have before := made.before
        rw [taken.own] at before
        cases before
  other := by
    intro m untouched
    obtain ⟨later, other⟩ : lastAt m written = none ∧ m ≠ l := by
      simpa [lastAt_cons] using untouched
    exact (taken.stays m other).trans (h.other m later)
  directory := fun m there => h.directory m (taken.directory there)

/-- Among the records that were taken, the last one counts. -/
theorem Delivered.leaves (h : Delivered placement s records written t) :
    Leaves placement s written t := by
  induction h with
  | nothing s => exact ⟨rfl, nofun, fun _ _ => .inl rfl, fun _ there => there⟩
  | @taken s t u r l records written kept located _ ih =>
    rcases writeRecord_eq placement s r with ⟨m, t, kept', takes⟩ | ⟨_, _, kept', -⟩
    all_goals cases kept.symm.trans kept'
    have there : t.kind? m ≠ none := by simp [takes.own]
    obtain rfl : l = m := Except.ok.inj
      (located.symm.trans (locate_eq_ok_iff.mpr ⟨takes.names, there⟩))
    exact ih.take takes
  | @lost s t u r fault records written kept _ ih =>
    rcases writeRecord_eq placement s r with ⟨_, _, kept', -⟩ | ⟨t, _, kept', more⟩
    all_goals cases kept.symm.trans kept'
    exact ih.lose more

end Storage

end Timeshare
