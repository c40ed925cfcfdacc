import Mathlib
import Timeshare.Text.Blank

/-!
# Words as runs

The words of a text are said here without splitting it: `Runs` walks over the characters, skips
blanks, and takes runs of other characters that end at a blank or with the text. There is exactly
one list of runs (`runs_iff`), and the words of a text are its runs (`splits_iff`). A text without a
blank is its only word (`IsWord.words_eq`), and a blank parts the words before it from those behind
it (`words_append_cons`).
-/

namespace Timeshare

/-- The longest runs of characters without a blank, in order. -/
inductive Runs (blank : Char → Bool) : List Char → List (List Char) → Prop
  | done : Runs blank [] []
  | skip {c : Char} {rest : List Char} {runs : List (List Char)} :
      blank c = true → Runs blank rest runs → Runs blank (c :: rest) runs
  | run {run rest : List Char} {runs : List (List Char)} :
      run ≠ [] → (∀ c ∈ run, blank c = false) → (∀ c ∈ rest.head?, blank c = true) →
        Runs blank rest runs → Runs blank (run ++ rest) (run :: runs)

/-- Some strings are the longest runs of characters of a text that are not blank. -/
def Splits (text : String) (words : List String) : Prop :=
  Runs isBlank text.toList (words.map String.toList)

variable {blank : Char → Bool} {text : List Char} {runs : List (List Char)}

theorem exists_runs (blank : Char → Bool) (text : List Char) : ∃ runs, Runs blank text runs := by
  induction text with
  | nil => exact ⟨[], .done⟩
  | cons c rest ih =>
    obtain ⟨runs, h⟩ := ih
    cases hc : blank c with
    | true => exact ⟨runs, .skip hc h⟩
    | false =>
      have alone : ∀ d ∈ [c], blank d = false := by simpa using hc
      -- The character begins a run of its own unless it stands right before one.
      cases h with
      | done => exact ⟨[[c]], .run (by simp) alone (by simp) .done⟩
      | skip hd later =>
        exact ⟨[c] :: runs, .run (by simp) alone (by simpa using hd) (.skip hd later)⟩
      | @run run rest runs filled clear stops later =>
        have longer : ∀ d ∈ c :: run, blank d = false := by simpa [hc] using clear
        exact ⟨(c :: run) :: runs, .run (by simp) longer stops later⟩

/-- Splitting at every blank finds the runs, and nothing between two blanks that are neighbours. -/
theorem Runs.splitOnP (h : Runs blank text runs) :
    (text.splitOnP blank).filter (· ≠ []) = runs := by
  induction h with
  | done => rfl
  | skip hc _ ih =>
    rw [List.splitOnP_cons_eq_if_modifyHead, if_pos hc]
    simpa using ih
  | @run run rest runs filled clear stops _ ih =>
    cases rest with
    | nil =>
      obtain rfl : runs = [] := by simpa using ih.symm
      rw [List.append_nil, List.splitOnP_eq_singleton clear]
      simp [filled]
    | cons c rest =>
      have hc : blank c = true := stops c rfl
      rw [List.splitOnP_append_cons_of_forall_mem clear c hc]
      rw [List.splitOnP_cons_eq_if_modifyHead, if_pos hc] at ih
      simpa [filled] using ih

theorem runs_iff : Runs blank text runs ↔ (text.splitOnP blank).filter (· ≠ []) = runs := by
  constructor
  · exact Runs.splitOnP
  · rintro rfl
    obtain ⟨runs, h⟩ := exists_runs blank text
    rwa [h.splitOnP]

/-- The words of a text are its only list of runs. -/
theorem splits_iff {line : String} {ws : List String} : Splits line ws ↔ ws = words line := by
  rw [Splits, runs_iff, words]
  constructor
  · intro h
    rw [h, List.map_map]
    simp
  · rintro rfl
    rw [List.map_map]
    simp

/-! ## Words by themselves -/

/-- A text that is one word: there is something to it and no blank in it. -/
def IsWord (text : String) : Prop := text ≠ "" ∧ ∀ c ∈ text.toList, isBlank c = false

instance (text : String) : Decidable (IsWord text) :=
  -- only the characters of the text are gone through, and not all there are
  have : Decidable (∀ c ∈ text.toList, isBlank c = false) := List.decidableBAll _ _
  inferInstanceAs (Decidable (text ≠ "" ∧ _))

theorem Runs.clear (h : Runs blank text runs) :
    ∀ run ∈ runs, run ≠ [] ∧ ∀ c ∈ run, blank c = false := by
  induction h with
  | done => nofun
  | skip _ _ ih => exact ih
  | run filled clear _ _ ih => exact List.forall_mem_cons.mpr ⟨⟨filled, clear⟩, ih⟩

theorem isWord_of_mem_words {line word : String} (h : word ∈ words line) : IsWord word := by
  have split : Splits line (words line) := splits_iff.mpr rfl
  obtain ⟨filled, clear⟩ := split.clear word.toList (List.mem_map_of_mem h)
  exact ⟨fun empty => filled (by rw [empty]; rfl), clear⟩

theorem IsWord.words_eq {word : String} (h : IsWord word) : words word = [word] := by
  have filled : word.toList ≠ [] := fun empty => h.1 (String.toList_inj.mp empty)
  rw [words, List.splitOnP_eq_singleton h.2]
  simp [filled]

/-- The words of some words are those words. -/
theorem flatMap_words {ws : List String} (h : ∀ word ∈ ws, IsWord word) : ws.flatMap words = ws := by
  induction ws with
  | nil => rfl
  | cons word ws ih =>
    obtain ⟨first, others⟩ := List.forall_mem_cons.mp h
    rw [List.flatMap_cons, first.words_eq, ih others, List.singleton_append]

/-! ## Blanks between words -/

/-- A blank parts the words before it from those behind it. -/
theorem words_append_cons {text before behind : String} {c : Char} (blank : isBlank c = true)
    (split : text.toList = before.toList ++ c :: behind.toList) :
    words text = words before ++ words behind := by
  rw [words, words, words, split, List.splitOnP_append_cons _ _ blank, List.filter_append,
    List.map_append]

/-- A blank at the end of a text has no part in its words. -/
theorem words_concat {text kept : String} {c : Char} (blank : isBlank c = true)
    (split : text.toList = kept.toList ++ [c]) : words text = words kept := by
  have parts : words text = words kept ++ words "" := words_append_cons blank split
  rw [parts]
  exact List.append_nil _

/-- Nor has one at its beginning. -/
theorem words_cons {text kept : String} {c : Char} (blank : isBlank c = true)
    (split : text.toList = c :: kept.toList) : words text = words kept := by
  have parts : words text = words "" ++ words kept := words_append_cons blank split
  rw [parts]
  exact List.nil_append _

end Timeshare
