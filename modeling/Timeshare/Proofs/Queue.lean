import Mathlib
import Timeshare.Queue

/-!
# Searching a queue

A queue is searched for the first identifier that somebody accepts. Either there is none, and all of
it goes, or the queue splits at the first one (`takeFirst_of_gone`, `takeFirst_of_split`).
-/

namespace Timeshare

namespace Queue

variable {q : Queue} {alive : ProcessId → Bool} {gone rest : List ProcessId} {id : ProcessId}

theorem takeFirst_of_gone (h : ∀ id ∈ q.ids, alive id = false) :
    q.takeFirst alive = (q.ids, none, empty) := by
  have all : ∀ id ∈ q.ids, (!alive id) = true := fun id hid => by rw [h id hid]; rfl
  rw [takeFirst, List.dropWhile_eq_nil_iff.mpr all, List.takeWhile_eq_self_iff.mpr all]
  rfl

theorem takeFirst_of_split (split : q.ids = gone ++ id :: rest)
    (h : ∀ other ∈ gone, alive other = false) (live : alive id = true) :
    q.takeFirst alive = (gone, some id, ⟨rest⟩) := by
  have all : ∀ other ∈ gone, (!alive other) = true := fun other ho => by rw [h other ho]; rfl
  simp only [takeFirst, split]
  rw [List.dropWhile_append_of_pos all, List.takeWhile_append_of_pos all]
  simp [live]

/-- Either nobody in a queue is alive or somebody is the first one who is. -/
theorem gone_or_split (q : Queue) (alive : ProcessId → Bool) :
    (∀ id ∈ q.ids, alive id = false) ∨
      ∃ gone id rest, q.ids = gone ++ id :: rest ∧ (∀ other ∈ gone, alive other = false) ∧
        alive id = true := by
  obtain ⟨ids⟩ := q
  induction ids with
  | nil => exact .inl fun _ h => absurd h List.not_mem_nil
  | cons head tail ih =>
    cases live : alive head with
    | true => exact .inr ⟨[], head, tail, rfl, fun _ h => absurd h List.not_mem_nil, live⟩
    | false =>
      rcases ih with none | ⟨gone, id, rest, split, dead, found⟩
      · exact .inl (List.forall_mem_cons.mpr ⟨live, none⟩)
      · refine .inr ⟨head :: gone, id, rest, ?_, List.forall_mem_cons.mpr ⟨live, dead⟩, found⟩
        exact congrArg (head :: ·) split

end Queue

end Timeshare
