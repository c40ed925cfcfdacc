import Mathlib
import Timeshare.Proofs.Storage.Path
import Timeshare.Storage.Placement

/-!
# The files of records

The file of a record is called after the process: the steps of its name before the last slash, and
then a file whose name tells all that stands behind the last slash (`walk_record`). Under a
directory these steps come behind those of the directory (`components_pathFor`), and a leading slash
is lost on the way. So two processes have one file exactly if their names mean the same up to a
leading slash and end in the same text (`meaning_pathFor_inj`), which keeps all images apart beside
them, but not under a directory (`keepsApart_iff`). How deep a way leads (`depth?`) tells whether it
stays in the directory.
-/

namespace Timeshare

namespace Path

/-- How many directories below its start a way leads, from some number of directories on, unless it
comes out above its start. -/
def depth? : Nat → List Component → Option Nat
  | n, [] => some n
  | n, .name _ :: way => depth? (n + 1) way
  | 0, .up :: _ => none
  | n + 1, .up :: way => depth? n way
  | n, _ :: way => depth? n way

/-- No part of a way leads above its start. -/
def StaysBelow (way : List Component) : Prop := (depth? 0 way).isSome

instance (way : List Component) : Decidable (StaysBelow way) :=
  inferInstanceAs (Decidable ((depth? 0 way).isSome))

theorem depth?_append (n : Nat) (a b : List Component) :
    depth? n (a ++ b) = (depth? n a).bind fun n => depth? n b := by
  induction a generalizing n with
  | nil => rfl
  | cons c a ih =>
    cases c with
    | up =>
      cases n with
      | zero => rfl
      | succ n => exact ih n
    | root | here => exact ih n
    | name => exact ih (n + 1)

end Path

namespace Placement

open Timeshare.Path

variable {placement : Placement} {directory name other : String}

/-! ## Where a record goes -/

/-- The file of a record is named after all that stands behind the last slash. -/
theorem walk_record (name : String) :
    walk (name ++ ".core") = folders name ++ [.name (file name ++ ".core")] := by
  have single : Single ".core" := by decide
  obtain ⟨way, last⟩ := folders_append single name
  have long (short : String) (h : short.length < 5) : file name ++ ".core" ≠ short := by
    rintro rfl
    have core : ".core".length = 5 := rfl
    rw [String.length_append, core] at h
    omega
  have stands : component? (file name ++ ".core") = some (.name (file name ++ ".core")) := by
    rw [component?, if_neg (not_or.mpr ⟨long "" (by decide), long "." (by decide)⟩),
      if_neg (long ".." (by decide))]
  rw [walk_eq, way, last, stands, Option.toList_some]

/-- Under a directory the file of a record is where the name of the process leads from there, and a
leading slash of that name is left out. -/
theorem components_pathFor (directory name : String) :
    ∃ start, (start = [] ∨ start = [.here]) ∧
      components ((under directory).pathFor name) =
        components directory ++ (start ++ walk (name ++ ".core")) := by
  have filled : walk (name ++ ".core") ≠ [] := by
    rw [walk_record]
    simp
  obtain ⟨way, relative⟩ := walk_unrooted filled
  rw [pathFor]
  by_cases called : directory = ""
  · subst called
    refine ⟨lead (ofComponents ((components (name ++ ".core")).filter (· ≠ .root))), ?_, ?_⟩
    · rw [lead, if_neg relative]
      split
      · exact .inr rfl
      · exact .inl rfl
    · rw [join_empty, components_eq, way]
      rfl
  · refine ⟨[], .inl rfl, ?_⟩
    rw [components_join called, way]
    rfl

theorem meaning_pathFor (directory name : String) :
    meaning ((under directory).pathFor name) = meaning directory ++ walk (name ++ ".core") := by
  obtain ⟨start, begins, parts⟩ := components_pathFor directory name
  have none : start.filter (· ≠ .here) = [] := by rcases begins with rfl | rfl <;> rfl
  rw [meaning, parts, List.filter_append, List.filter_append, none,
    filter_walk fun c _ h => by simpa using h]
  rfl

theorem walk_record_inj {a b : String} :
    walk (a ++ ".core") = walk (b ++ ".core") ↔ walk a = walk b ∧ file a = file b := by
  rw [walk_record, walk_record, walk_eq a, walk_eq b, List.append_singleton_inj]
  constructor
  · rintro ⟨way, last⟩
    have same : file a = file b := by simpa using last
    rw [way, same]
    exact ⟨rfl, rfl⟩
  · rintro ⟨way, last⟩
    rw [last, List.append_left_inj] at way
    rw [way, last]
    exact ⟨rfl, rfl⟩

/-- Nothing is written in front of a name. -/
theorem head_record (name : String) :
    (name ++ ".core").toList.head? = some '/' ↔ name.toList.head? = some '/' := by
  have core : ".core".toList = ['.', 'c', 'o', 'r', 'e'] := rfl
  rw [String.toList_append, core]
  cases name.toList <;> simp

/-! ## One file for two processes -/

/-- Two names are the same to those who place records: beside images, if they mean the same, and
under a directory even if one of them starts at the root and the other does not. -/
def Alike : Placement → String → String → Prop
  | besideImage, a, b => meaning a = meaning b
  | under _, a, b => (meaning a).filter (· ≠ .root) = (meaning b).filter (· ≠ .root)

/-- Processes of different images have records in different files. The images are called by names
without two dots, which end in a file, and which do not mean the same. -/
def KeepsApart (placement : Placement) : Prop :=
  ∀ a b, .up ∉ meaning a → .up ∉ meaning b →
    (∃ text, (meaning a).getLast? = some (.name text)) →
    (∃ text, (meaning b).getLast? = some (.name text)) →
    meaning a ≠ meaning b → meaning (placement.pathFor a) ≠ meaning (placement.pathFor b)

theorem filter_meaning (path : String) : (meaning path).filter (· ≠ .root) = walk path := by
  rw [meaning_eq, List.filter_append, filter_walk fun c h _ => by simpa using h]
  split <;> rfl

theorem meaning_inj {a b : String} :
    meaning a = meaning b ↔
      (a.toList.head? = some '/' ↔ b.toList.head? = some '/') ∧ walk a = walk b := by
  constructor
  · intro same
    have starts : ∀ path, .root ∈ meaning path ↔ path.toList.head? = some '/' := by
      intro path
      rw [meaning_eq, List.mem_append]
      constructor
      · rintro (h | h)
        · by_contra other
          simp [other] at h
        · exact absurd rfl (ne_of_mem_walk h).1
      · intro h
        simp [h]
    refine ⟨by rw [← starts, ← starts, same], ?_⟩
    rw [← filter_meaning, ← filter_meaning, same]
  · rintro ⟨start, way⟩
    simp only [meaning_eq, start, way]

/-- Two processes have one file exactly if their names are alike and end in the same text. -/
theorem meaning_pathFor_inj {a b : String} :
    meaning (placement.pathFor a) = meaning (placement.pathFor b) ↔
      placement.Alike a b ∧ file a = file b := by
  cases placement with
  | besideImage =>
    have beside : ∀ name, besideImage.pathFor name = name ++ ".core" := fun _ => rfl
    rw [beside, beside, meaning_inj, head_record, head_record, walk_record_inj, Alike, meaning_inj,
      and_assoc]
  | under directory =>
    rw [meaning_pathFor, meaning_pathFor, List.append_right_inj, walk_record_inj, Alike,
      filter_meaning, filter_meaning]

/-- Names that are not alike are kept apart, and a leading slash is all that may be overlooked. So
images never share a file for their records if and only if the records stand beside them. -/
theorem keepsApart_iff (placement : Placement) :
    (∀ a b, meaning (placement.pathFor a) = meaning (placement.pathFor b) ↔
      placement.Alike a b ∧ file a = file b) ∧
    (placement.KeepsApart ↔ placement = .besideImage) := by
  refine ⟨fun a b => meaning_pathFor_inj, ?_⟩
  constructor
  · intro apart
    cases placement with
    | besideImage => rfl
    | under directory =>
      have rooted : meaning "/a" = [.root, .name "a"] := by decide +kernel
      have bare : meaning "a" = [.name "a"] := by decide +kernel
      refine absurd (meaning_pathFor_inj.mpr ⟨?_, by decide +kernel⟩)
        (apart "/a" "a" (by simp [rooted]) (by simp [bare]) ⟨"a", by simp [rooted]⟩
          ⟨"a", by simp [bare]⟩ (by simp [rooted, bare]))
      simp [Alike, rooted, bare]
  · rintro rfl a b - - - - different same
    exact different (meaning_pathFor_inj.mp same).1

/-- Under one directory the records of an image in the root directory and of an image of the same
name elsewhere are one file. -/
theorem not_keepsApart_rooted :
    meaning "/a" = [.root, .name "a"] ∧ meaning "a" = [.name "a"] ∧
      (under "cores").pathFor "/a" = "cores/a.core" ∧
      (under "cores").pathFor "a" = "cores/a.core" ∧ ¬ (under "cores").KeepsApart := by
  have rooted : meaning "/a" = [.root, .name "a"] := by decide +kernel
  have bare : meaning "a" = [.name "a"] := by decide +kernel
  have first : (under "cores").pathFor "/a" = "cores/a.core" := by decide +kernel
  have second : (under "cores").pathFor "a" = "cores/a.core" := by decide +kernel
  refine ⟨rooted, bare, first, second, fun apart => ?_⟩
  refine apart "/a" "a" (by simp [rooted]) (by simp [bare]) ⟨"a", by simp [rooted]⟩
    ⟨"a", by simp [bare]⟩ (by simp [rooted, bare]) ?_
  rw [first, second]

end Placement

end Timeshare
