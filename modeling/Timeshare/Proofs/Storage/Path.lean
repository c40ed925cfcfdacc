import Mathlib
import Timeshare.Storage.Path

/-!
# File names and their steps

A slash between two names puts the texts of one before those of the other (`segments_slash`), and
every name is a text without a slash, or has such a text behind a shorter name (`exists_last`). The
components of a name are a leading slash or dot, if there is one, and the steps that its texts stand
for (`components_eq`). Without the dot they are what the name means: where it starts and which way
it goes (`meaning_eq`).
-/

namespace Timeshare

namespace Path

variable {path segment : String} {segs : List String} {c : Component}

/-! ## Texts between slashes -/

/-- A text without a slash. -/
def Single (segment : String) : Prop := '/' ∉ segment.toList

instance (segment : String) : Decidable (Single segment) :=
  inferInstanceAs (Decidable ('/' ∉ segment.toList))

theorem segments_of_single (h : Single path) : segments path = [path] := by
  rw [segments, List.splitOn_eq_singleton h, List.map_singleton, String.ofList_toList]

theorem segments_slash (a b : String) : segments (a ++ "/" ++ b) = segments a ++ segments b := by
  have split : (a ++ "/" ++ b).toList = a.toList ++ '/' :: b.toList := by simp
  rw [segments, split, List.splitOn_append_cons_self, List.map_append]
  rfl

/-- Texts with slashes put between them are found there again. -/
theorem segments_intercalate (filled : segs ≠ []) (single : ∀ segment ∈ segs, Single segment) :
    segments (String.intercalate "/" segs) = segs := by
  have slash : "/".toList = ['/'] := rfl
  rw [segments, String.toList_intercalate, slash, List.splitOn_intercalate '/']
  · simp
  · simpa [Single] using single
  · simpa using filled

/-- A name has no slash, or it has a text without one behind its last slash. -/
theorem exists_last (path : String) :
    ∃ last, Single last ∧ (path = last ∨ ∃ front, path = front ++ "/" ++ last) := by
  by_cases slash : '/' ∈ path.toList
  · obtain ⟨last, front, split, single⟩ :=
      List.eq_append_cons_of_mem (List.mem_reverse.mpr slash)
    refine ⟨String.ofList last.reverse, by simpa [Single] using single,
      .inr ⟨String.ofList front.reverse, String.toList_inj.mp ?_⟩⟩
    rw [← List.reverse_reverse path.toList, split]
    simp
  · exact ⟨path, slash, .inl rfl⟩

theorem single_of_mem_segments (h : segment ∈ segments path) : Single segment := by
  obtain ⟨cs, mem, rfl⟩ := List.mem_map.mp h
  have split : ∀ all : List Char, ∀ cs ∈ all.splitOn '/', '/' ∉ cs := by
    intro all
    induction all with
    | nil => simp
    | cons c all ih =>
      obtain ⟨first, later, parts⟩ := List.exists_cons_of_ne_nil (List.splitOn_ne_nil '/' all)
      rw [parts, List.forall_mem_cons] at ih
      rw [List.splitOn_cons_eq_if_modifyHead, parts]
      split
      · simpa using ih
      · rename_i other
        rw [List.modifyHead_cons, List.forall_mem_cons, List.mem_cons, not_or]
        exact ⟨⟨fun slash => other (by simp [← slash]), ih.1⟩, ih.2⟩
  simpa [Single] using split path.toList cs mem

/-- A name with a slash in front has an empty text before it. -/
theorem head_eq_slash_iff :
    path.toList.head? = some '/' ↔ ∃ rest, rest ≠ [] ∧ segments path = "" :: rest := by
  rw [segments]
  cases path.toList with
  | nil => simp [eq_comm]
  | cons c cs =>
    obtain ⟨first, later, parts⟩ := List.exists_cons_of_ne_nil (List.splitOn_ne_nil '/' cs)
    rw [List.splitOn_cons_eq_if_modifyHead, parts]
    by_cases slash : c = '/'
    · simp [slash]
    · simp [slash, String.ext_iff]

/-! ## Steps -/

/-- The steps that a name asks for, wherever it starts. -/
def walk (path : String) : List Component := (segments path).filterMap component?

/-- What a name begins with, apart from steps. -/
def lead (path : String) : List Component :=
  if path.toList.head? = some '/' then [.root]
  else if (segments path).head? = some "." then [.here]
  else []

/-- What a name means: where it starts and the way from there. -/
def meaning (path : String) : List Component := (components path).filter (· ≠ .here)

theorem componentText_of_component? (h : component? segment = some c) :
    componentText c = segment := by
  rw [component?] at h
  split at h
  · cases h
  · split at h
    · cases h
      exact (‹segment = ".."›).symm
    · cases h
      rfl

theorem component?_componentText (h : c ∈ walk path) : component? (componentText c) = some c := by
  obtain ⟨segment, -, stands⟩ := List.mem_filterMap.mp h
  rw [componentText_of_component? stands, stands]

theorem ne_of_mem_walk (h : c ∈ walk path) : c ≠ .root ∧ c ≠ .here := by
  have stands := component?_componentText h
  constructor
  · rintro rfl
    cases stands
  · rintro rfl
    cases stands

/-- A way has no beginning in it that could be left out. -/
theorem filter_walk {keeps : Component → Bool} (h : ∀ c, c ≠ .root → c ≠ .here → keeps c = true)
    (path : String) : (walk path).filter keeps = walk path :=
  List.filter_eq_self.mpr fun c mem => h c (ne_of_mem_walk mem).1 (ne_of_mem_walk mem).2

theorem walk_slash (a b : String) : walk (a ++ "/" ++ b) = walk a ++ walk b := by
  rw [walk, segments_slash, List.filterMap_append]
  rfl

/-- The components of a name are its beginning and its steps. -/
theorem components_eq (path : String) : components path = lead path ++ walk path := by
  have slash : path.toList.head? = some '/' ↔ _ := head_eq_slash_iff
  rw [components, lead, walk]
  cases parts : segments path with
  | nil => simp [slash, parts]
  | cons first rest =>
    by_cases empty : first = ""
    · subst empty
      by_cases alone : rest = []
      · subst alone
        simp [slash, parts, component?]
      · simp [slash, parts, alone, component?]
    · by_cases dot : first = "."
      · subst dot
        simp [slash, parts, component?]
      · simp only [slash, parts, empty, dot, if_false, List.cons.injEq, false_and, and_false,
          exists_false, List.head?_cons, Option.some.injEq, List.nil_append, List.filterMap_cons]
        cases component? first <;> rfl

theorem lead_cases (path : String) :
    lead path = [.root] ∨ lead path = [.here] ∨ lead path = [] := by
  rw [lead]
  split
  · exact .inl rfl
  · split
    · exact .inr (.inl rfl)
    · exact .inr (.inr rfl)

theorem meaning_eq (path : String) :
    meaning path = (if path.toList.head? = some '/' then [.root] else []) ++ walk path := by
  rw [meaning, components_eq, List.filter_append, filter_walk (by simp), lead]
  congr 1
  split
  · rfl
  · split <;> rfl

/-! ## The last text of a name -/

/-- What stands behind the last slash. -/
def file (path : String) : String := (segments path).getLast?.getD ""

/-- The steps that stand before the last slash. -/
def folders (path : String) : List Component := (segments path).dropLast.filterMap component?

theorem walk_eq (path : String) : walk path = folders path ++ (component? (file path)).toList := by
  obtain ⟨last, single, rfl | ⟨front, rfl⟩⟩ := exists_last path
  · rw [walk, folders, file, segments_of_single single]
    cases stands : component? path <;> simp [stands]
  · rw [walk_slash, folders, file, segments_slash, segments_of_single single]
    cases stands : component? last <;> simp [walk, segments_of_single single, stands]

/-- Something without a slash written behind a name belongs to what stands behind the last slash. -/
theorem folders_append {suffix : String} (single : Single suffix) (path : String) :
    folders (path ++ suffix) = folders path ∧ file (path ++ suffix) = file path ++ suffix := by
  obtain ⟨last, alone, rfl | ⟨front, rfl⟩⟩ := exists_last path
  · have both : Single (path ++ suffix) := by simp_all [Single]
    simp [folders, file, segments_of_single both, segments_of_single alone]
  · have both : Single (last ++ suffix) := by simp_all [Single]
    rw [String.append_assoc, folders, file, folders, file, segments_slash, segments_slash,
      segments_of_single both, segments_of_single alone]
    simp

/-! ## Names put together -/

/-- Components that stand in a name, apart from a leading slash, are the texts of the name that is
made of them. -/
theorem segments_ofComponents {way : List Component} (filled : way ≠ [])
    (steps : ∀ c ∈ way, c = .here ∨ c ∈ walk path) :
    segments (ofComponents way) = way.map componentText := by
  have single : ∀ c ∈ way, Single (componentText c) := by
    intro c h
    rcases steps c h with rfl | h
    · decide
    · obtain ⟨segment, mem, stands⟩ := List.mem_filterMap.mp h
      rw [componentText_of_component? stands]
      exact single_of_mem_segments mem
  rw [ofComponents]
  · exact segments_intercalate (by simpa using filled) (by simpa using single)
  · rintro rfl
    rcases steps .root List.mem_cons_self with same | mem
    · cases same
    · exact absurd rfl (ne_of_mem_walk mem).1

/-- A name less its leading slash goes the same way, and it does not start at the root. -/
theorem walk_unrooted (filled : walk path ≠ []) :
    walk (ofComponents ((components path).filter (· ≠ .root))) = walk path ∧
      (ofComponents ((components path).filter (· ≠ .root))).toList.head? ≠ some '/' := by
  obtain ⟨start, begins, parts⟩ : ∃ start, (start = [] ∨ start = [.here]) ∧
      (components path).filter (· ≠ .root) = start ++ walk path := by
    rw [components_eq, List.filter_append, filter_walk fun c h _ => by simpa using h]
    refine ⟨(lead path).filter (· ≠ .root), ?_, rfl⟩
    rcases lead_cases path with h | h | h <;> simp [h]
  have steps : ∀ c ∈ start ++ walk path, c = .here ∨ c ∈ walk path := by
    intro c h
    rcases List.mem_append.mp h with h | h
    · rcases begins with rfl | rfl
      · cases h
      · exact .inl (List.mem_singleton.mp h)
    · exact .inr h
  have texts : segments (ofComponents (start ++ walk path)) =
      (start ++ walk path).map componentText :=
    segments_ofComponents (List.append_ne_nil_of_right_ne_nil start filled) steps
  have back : (walk path).filterMap (component? ∘ componentText) = walk path := by
    conv_rhs => rw [← List.filterMap_some (l := walk path)]
    exact List.filterMap_congr fun c h => component?_componentText h
  have none : start.filterMap (component? ∘ componentText) = [] := by
    rcases begins with rfl | rfl <;> rfl
  rw [parts]
  constructor
  · rw [walk, texts, List.filterMap_map, List.filterMap_append, none, back, List.nil_append]
  · rw [Ne, head_eq_slash_iff, texts]
    rintro ⟨rest, -, same⟩
    obtain ⟨c, later, split⟩ := List.exists_cons_of_ne_nil
      (List.append_ne_nil_of_right_ne_nil start filled)
    rw [split, List.map_cons] at same
    have first := (List.cons.inj same).1
    rcases steps c (by simp [split]) with rfl | h
    · exact absurd first (by decide)
    · have stands := component?_componentText h
      rw [first] at stands
      cases stands

/-- Between the texts of a directory and those of a name taken from there at most an empty one is
left out. -/
theorem segments_join {directory : String} (called : directory ≠ "") (relative : String) :
    ∃ front, front ≠ [] ∧ segments (join directory relative) = front ++ segments relative ∧
      (segments directory = front ∨ segments directory = front ++ [""]) := by
  rw [join]
  split
  case isTrue slash =>
    obtain ⟨front, split⟩ : ∃ front, directory = front ++ "/" := by
      rcases List.eq_nil_or_concat' directory.toList with empty | ⟨front, c, split⟩
      · exact absurd (String.toList_inj.mp empty) called
      · rw [split, List.getLast?_concat] at slash
        obtain rfl : c = '/' := by simpa using slash
        exact ⟨String.ofList front, String.toList_inj.mp (by simp [split])⟩
    subst split
    refine ⟨segments front, by simp [segments], segments_slash front relative, .inr ?_⟩
    rw [← String.append_empty (s := front ++ "/"), segments_slash]
    rfl
  case isFalse =>
    exact ⟨segments directory, by simp [segments], segments_slash directory relative, .inl rfl⟩

theorem head_join {directory : String} (called : directory ≠ "") (relative : String) :
    (join directory relative).toList.head? = directory.toList.head? := by
  obtain ⟨c, cs, split⟩ :=
    List.exists_cons_of_ne_nil fun empty => called (String.toList_inj.mp empty)
  rw [join]
  split <;> simp [split]

/-- A name that is taken from a directory begins as that directory does, if it has a name, and goes
on behind it. -/
theorem components_join {directory : String} (called : directory ≠ "") (relative : String) :
    components (join directory relative) = components directory ++ walk relative := by
  obtain ⟨front, filled, parts, whole⟩ := segments_join called relative
  have steps : walk directory = front.filterMap component? := by
    rcases whole with same | same
    · rw [walk, same]
    · rw [walk, same, List.filterMap_append]
      simp [component?]
  have first : (segments directory).head? = front.head? := by
    rcases whole with same | same
    · rw [same]
    · rw [same, List.head?_append_of_ne_nil _ filled]
  have start : lead (join directory relative) = lead directory := by
    rw [lead, lead, head_join called, parts, List.head?_append_of_ne_nil _ filled, first]
  rw [components_eq, components_eq, start, steps, walk, parts, List.filterMap_append,
    List.append_assoc]
  rfl

theorem join_empty (relative : String) : join "" relative = relative := by
  rw [join, if_pos (by decide), String.empty_append]

end Path

end Timeshare
