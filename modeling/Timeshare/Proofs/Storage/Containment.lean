import Mathlib
import Timeshare.Proofs.Storage.Placement
import Timeshare.Proofs.Storage.Records

/-!
# Records in their directory

The depth of a way counts how far below its start it has come. Taken in a tree of files, a way leads
that many names below the place where it starts, and so it cannot leave that place unless its depth
fails (`prefix_of_leads`). A file name taken from a directory leads on from where the directory is
(`exists_home`). With both, a record that was written under a directory is a file in that directory,
unless the steps of its name before the last slash lead out of it (`contained_iff`).
-/

namespace Timeshare

open Timeshare.Path

/-! ## The way of a record -/

namespace Path

theorem depth?_here (n : Nat) (way : List Component) : depth? n (.here :: way) = depth? n way := by
  cases n <;> rfl

theorem staysBelow_here_iff (way : List Component) :
    StaysBelow (.here :: way) ↔ StaysBelow way := by
  rw [StaysBelow, StaysBelow, depth?_here]

/-- A name behind a way does not lead out of where the way has led. -/
theorem staysBelow_concat_iff (way : List Component) (text : String) :
    StaysBelow (way ++ [.name text]) ↔ StaysBelow way := by
  rw [StaysBelow, StaysBelow, depth?_append]
  cases depth? 0 way <;> simp [depth?]

end Path

theorem Placement.staysBelow_walk_iff (name : String) :
    StaysBelow (walk (name ++ ".core")) ↔ StaysBelow (folders name) := by
  rw [Placement.walk_record, staysBelow_concat_iff]

/-- Behind the components of the directory the file of a record goes the way of its name. -/
theorem Placement.exists_tail (directory name : String) :
    ∃ tail, components ((under directory).pathFor name) = components directory ++ tail ∧
      (StaysBelow tail ↔ StaysBelow (folders name)) := by
  obtain ⟨start, begins, parts⟩ := Placement.components_pathFor directory name
  refine ⟨_, parts, ?_⟩
  rcases begins with rfl | rfl
  · exact Placement.staysBelow_walk_iff name
  · rw [List.singleton_append, staysBelow_here_iff]
    exact Placement.staysBelow_walk_iff name

namespace Storage

variable {s t : Storage} {l base : Location} {path directory relative : String} {r : Record}

/-! ## Ways in a tree of files -/

/-- A way whose depth does not fail leads to a place below the one where it starts. -/
theorem prefix_of_leads {extra : Location} {segments : List String} {n : Nat}
    (filled : ∀ segment ∈ segments, segment ≠ "") (leads : s.Leads (base ++ extra) segments l)
    (depth : depth? extra.length (segments.filterMap component?) = some n) : base <+: l := by
  induction segments generalizing extra with
  | nil =>
    obtain rfl : l = base ++ extra := leads
    exact List.prefix_append base extra
  | cons segment rest ih =>
    obtain ⟨first, others⟩ := List.forall_mem_cons.mp filled
    obtain ⟨-, -, later⟩ := leads
    by_cases dot : segment = "."
    · subst dot
      exact ih others later depth
    by_cases up : segment = ".."
    · subst up
      rcases List.eq_nil_or_concat' extra with rfl | ⟨front, name, rfl⟩
      · cases depth
      · have back : next (base ++ (front ++ [name])) ".." = base ++ front := by
          simp [next, ← List.append_assoc]
        rw [List.length_append, List.length_singleton] at depth
        exact ih others (back ▸ later) depth
    · have stands : component? segment = some (.name segment) := by
        rw [component?, if_neg (not_or.mpr ⟨first, dot⟩), if_neg up]
      have down : next (base ++ extra) segment = base ++ (extra ++ [segment]) := by
        simp [next, dot, up]
      rw [List.filterMap_cons, stands] at depth
      refine ih others (down ▸ later) ?_
      rw [List.length_append, List.length_singleton]
      exact depth

/-- Texts between slashes stand for the same components when the empty ones are left out and a dot
is put behind them. -/
theorem filterMap_filled (segments : List String) (trailing : Prop) [Decidable trailing] :
    (segments.filter (· ≠ "") ++ if trailing then ["."] else []).filterMap component? =
      segments.filterMap component? := by
  have dot : (if trailing then ["."] else []).filterMap component? = [] := by split <;> rfl
  rw [List.filterMap_append, dot, List.append_nil, List.filterMap_filter]
  refine List.filterMap_congr fun segment _ => ?_
  by_cases empty : segment = "" <;> simp [empty, component?]

theorem filterMap_steps (path : String) : (steps path).filterMap component? = walk path :=
  filterMap_filled (segments path) _

theorem ne_empty_of_mem_steps {segment : String} (h : segment ∈ steps path) : segment ≠ "" := by
  rw [steps, List.mem_append] at h
  rcases h with among | trailing
  · simpa using (List.mem_filter.mp among).2
  · rintro rfl
    split at trailing <;> simp at trailing

/-- Some steps are taken only where a directory is. -/
theorem directory_of_leads {segments : List String} (some : segments ≠ [])
    (leads : s.Leads base segments l) : s.kind? base = Option.some .directory := by
  obtain ⟨first, rest, rfl⟩ := List.exists_cons_of_ne_nil some
  exact leads.1

theorem exists_join_eq_append (directory relative : String) :
    ∃ rest, join directory relative = directory ++ rest := by
  rw [join]
  split
  · exact ⟨relative, rfl⟩
  · exact ⟨"/" ++ relative, String.append_assoc ..⟩

/-- What a longer name may hold a shorter one may hold. -/
theorem Sound.of_join (called : directory ≠ "") (sound : Sound (join directory relative)) :
    Sound directory := by
  obtain ⟨rest, same⟩ := exists_join_eq_append directory relative
  refine ⟨called, fun text => sound.text ?_, ?_⟩
  · rw [same, String.toList_append]
    exact List.mem_append_left _ text
  · have short := sound.short
    rw [same, String.utf8ByteSize_append] at short
    omega

/-- A name that is taken from a directory leads on from where the directory is. -/
theorem exists_home (called : directory ≠ "") (way : walk relative ≠ [])
    (names : s.Names (join directory relative) l) :
    ∃ home further, s.locate directory = .ok home ∧ s.kind? home = some .directory ∧
      s.Leads home further l ∧ (∀ segment ∈ further, segment ≠ "") ∧
      further.filterMap component? = walk relative := by
  obtain ⟨front, -, parts, whole⟩ := segments_join called relative
  obtain ⟨sound, leads⟩ := names
  have first : steps directory = front.filter (· ≠ "") ++
      (if directory.toList.getLast? = some '/' then ["."] else []) := by
    rw [steps]
    rcases whole with same | same <;> simp [same]
  obtain ⟨further, both, goesOn⟩ : ∃ further,
      steps (join directory relative) = front.filter (· ≠ "") ++ further ∧
        further.filterMap component? = walk relative := by
    rw [steps, parts, List.filter_append, List.append_assoc]
    exact ⟨_, rfl, filterMap_filled (segments relative) _⟩
  have some : further ≠ [] := by
    rintro rfl
    exact way goesOn.symm
  have filled (segment : String) (h : segment ∈ further) : segment ≠ "" := by
    have among : segment ∈ steps (join directory relative) := both ▸ List.mem_append_right _ h
    exact ne_empty_of_mem_steps among
  have start : s.origin (join directory relative) = s.origin directory := by
    rw [origin, origin, head_join called]
  rw [both, start, leads_append] at leads
  obtain ⟨home, above, below⟩ := leads
  have there := directory_of_leads some below
  have named : s.Names directory home := by
    refine ⟨sound.of_join called, ?_⟩
    rw [first, leads_append]
    refine ⟨home, above, ?_⟩
    split
    · exact ⟨there, .inl rfl, rfl⟩
    · rfl
  exact ⟨home, further, locate_eq_ok_iff.mpr ⟨named, by simp [there]⟩, there, below, filled, goesOn⟩

/-! ## The file of a record -/

/-- A directory for records is where its name leads to. No name stands for the home directory. -/
def Base (s : Storage) (directory : String) (home : Location) : Prop :=
  directory = "" ∧ home = s.home ∨ s.locate directory = .ok home

/-- The file of a record is found from the directory, on the way of the name of the process. -/
theorem exists_base {name : String} (names : s.Names ((Placement.under directory).pathFor name) l) :
    ∃ home further, s.Base directory home ∧ s.kind? home = some .directory ∧
      s.Leads home further l ∧ (∀ segment ∈ further, segment ≠ "") ∧
      further.filterMap component? = walk (name ++ ".core") := by
  have filled : walk (name ++ ".core") ≠ [] := by
    rw [Placement.walk_record]
    simp
  obtain ⟨relative, place, way, unrooted⟩ : ∃ relative,
      (Placement.under directory).pathFor name = join directory relative ∧
        walk relative = walk (name ++ ".core") ∧ relative.toList.head? ≠ some '/' :=
    ⟨_, rfl, walk_unrooted filled⟩
  rw [place] at names
  rw [← way] at filled ⊢
  by_cases called : directory = ""
  · rw [called, join_empty] at names
    obtain ⟨sound, leads⟩ := names
    rw [origin, if_neg unrooted] at leads
    have above := directory_of_leads (steps_ne_nil sound.called) leads
    exact ⟨s.home, steps relative, .inl ⟨called, rfl⟩, above, leads,
      fun _ => ne_empty_of_mem_steps, filterMap_steps relative⟩
  · obtain ⟨home, further, located, found⟩ := exists_home called filled names
    exact ⟨home, further, .inr located, found⟩

/-- A record that was written under a directory is a file in that directory, if the steps of its
name before the last slash do not lead out of it. -/
theorem writeRecord_below (kept : s.writeRecord (.under directory) r = (t, none))
    (below : StaysBelow (folders r.status.name)) :
    ∃ home inside, t.Base directory home ∧ inside ≠ [] ∧
      t.locate ((Placement.under directory).pathFor r.status.name) = .ok (home ++ inside) ∧
      t.contentAt (home ++ inside) = .ok (bytes r) := by
  rcases writeRecord_eq (.under directory) s r with ⟨l, t', kept', takes⟩ | ⟨_, _, kept', -⟩
  all_goals cases kept.symm.trans kept'
  obtain ⟨home, further, base, above, leads, filled, way⟩ := exists_base takes.names
  obtain ⟨n, depth⟩ := Option.isSome_iff_exists.mp ((Placement.staysBelow_walk_iff _).mpr below)
  obtain ⟨inside, rfl⟩ : home <+: l := by
    rw [← way] at depth
    rw [← List.append_nil home] at leads
    exact prefix_of_leads filled leads depth
  refine ⟨home, inside, base, ?_, ?_, contentAt_eq_ok_iff.mpr takes.own⟩
  · rintro rfl
    have own := takes.own
    rw [List.append_nil, above] at own
    cases own
  · exact locate_eq_ok_iff.mpr ⟨takes.names, by simp [takes.own]⟩

end Storage

namespace Placement

/-- Behind the components of its directory the file of a record never leads above it exactly if the
steps of the name before the last slash do not, and then every record that is written is a file in
the directory. -/
theorem contained_iff (directory name : String) :
    (∃ tail, components ((under directory).pathFor name) = components directory ++ tail ∧
      (StaysBelow tail ↔ StaysBelow (folders name))) ∧
    (StaysBelow (folders name) → ∀ (s t : Storage) (r : Record), r.status.name = name →
      s.writeRecord (under directory) r = (t, none) →
        ∃ home inside, t.Base directory home ∧ inside ≠ [] ∧
          t.locate ((under directory).pathFor name) = .ok (home ++ inside) ∧
          t.contentAt (home ++ inside) = .ok (Storage.bytes r)) := by
  refine ⟨exists_tail directory name, fun below s t r called kept => ?_⟩
  subst called
  exact Storage.writeRecord_below kept below

/-- A record whose name goes down and up again stays in the directory. -/
theorem contained_with_dots :
    let world : Storage := { home := [], root := .directory [] }
    let r : Record := ⟨(Submission.process ⟨1, .low, 5, "/a/../x", []⟩ 0).status, .killed⟩
    StaysBelow (folders "/a/../x") ∧ (under "cores").pathFor "/a/../x" = "cores/a/../x.core" ∧
      ∃ t, world.writeRecord (under "cores") r = (t, none) ∧
        t.files.map Prod.fst = [["cores", "x.core"]] ∧
        ∃ home inside, t.Base "cores" home ∧ inside ≠ [] ∧
          t.locate ((under "cores").pathFor "/a/../x") = .ok (home ++ inside) ∧
          t.contentAt (home ++ inside) = .ok (Storage.bytes r) := by
  intro world r
  have below : StaysBelow (folders "/a/../x") := by decide +kernel
  have place : (under "cores").pathFor "/a/../x" = "cores/a/../x.core" := by decide +kernel
  have done : (world.writeRecord (under "cores") r).map (fun t => t.files.map Prod.fst) id =
      ([["cores", "x.core"]], none) := by decide +kernel
  obtain ⟨t, kept, files⟩ : ∃ t, world.writeRecord (under "cores") r = (t, none) ∧
      t.files.map Prod.fst = [["cores", "x.core"]] := by
    generalize world.writeRecord (under "cores") r = written at done
    obtain ⟨t, fault⟩ := written
    obtain ⟨files, rfl⟩ := Prod.mk.inj done
    exact ⟨t, rfl, files⟩
  exact ⟨below, place, t, kept, files, (contained_iff "cores" "/a/../x").2 below world t r rfl kept⟩

/-- Two dots lead out of the directory, and the record is written beside it. -/
theorem not_contained_up :
    let world : Storage := { home := [], root := .directory [] }
    let r : Record := ⟨(Submission.process ⟨1, .low, 5, "../x", []⟩ 0).status, .killed⟩
    (under "cores").pathFor "../x" = "cores/../x.core" ∧
      (¬ ∃ tail, components ((under "cores").pathFor "../x") = components "cores" ++ tail ∧
        StaysBelow tail) ∧
      ∃ t, world.writeRecord (under "cores") r = (t, none) ∧
        t.kind? ["cores"] = some .directory ∧ t.files.map Prod.fst = [["x.core"]] := by
  intro world r
  have place : (under "cores").pathFor "../x" = "cores/../x.core" := by decide +kernel
  have whole : components "cores/../x.core" = [.name "cores", .up, .name "x.core"] := by
    decide +kernel
  have front : components "cores" = [.name "cores"] := by decide +kernel
  have done : (world.writeRecord (under "cores") r).map
      (fun t => (t.kind? ["cores"], t.files.map Prod.fst)) id =
        ((some .directory, [["x.core"]]), none) := by decide +kernel
  refine ⟨place, ?_, ?_⟩
  · rintro ⟨tail, split, below⟩
    rw [place, whole, front, List.singleton_append] at split
    obtain rfl := (List.cons.inj split).2
    exact absurd below (by decide)
  · generalize world.writeRecord (under "cores") r = written at done
    obtain ⟨t, fault⟩ := written
    obtain ⟨found, rfl⟩ := Prod.mk.inj done
    obtain ⟨directory, files⟩ := Prod.mk.inj found
    exact ⟨t, rfl, directory, files⟩

end Placement

end Timeshare
