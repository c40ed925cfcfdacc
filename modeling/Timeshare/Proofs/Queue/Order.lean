import Mathlib
import Timeshare.Queue

/-!
# Queues in use

A queue is used by calls: somebody joins it, or its head is called for. Whoever was called for and,
behind them, whoever still waits are all who joined, in the order in which they joined
(`called_append_ids`). So the place of everybody in the order of joining says which call gets them,
and a call that comes when all of them were called for gets nobody. `inOrder` puts this together.
-/

namespace Timeshare

namespace Queue

/-- A use of a queue. -/
inductive Call where
  | enqueue (id : ProcessId)
  | dequeue
  deriving DecidableEq, Repr

namespace Call

/-- Who joins by a call. -/
def joining? : Call → Option ProcessId
  | enqueue id => some id
  | dequeue => none

/-- Whether a call is for the head. -/
def isDequeue : Call → Bool
  | enqueue _ => false
  | dequeue => true

end Call

/-- A queue behind some calls, and what those for its head have got, first call first. -/
def serve (q : Queue) : List Call → Queue × List (Option ProcessId)
  | [] => (q, [])
  | .enqueue id :: later => (q.enqueue id).serve later
  | .dequeue :: later =>
    let (head, rest) := q.dequeue
    let (q, answers) := rest.serve later
    (q, head :: answers)

variable {q : Queue} {calls before later : List Call}

/-! ## From any queue on -/

theorem serve_append (q : Queue) (calls later : List Call) :
    q.serve (calls ++ later) =
      (((q.serve calls).1.serve later).1,
        (q.serve calls).2 ++ ((q.serve calls).1.serve later).2) := by
  induction calls generalizing q with
  | nil => rfl
  | cons call calls ih =>
    cases call with
    | enqueue id => exact ih (q.enqueue id)
    | dequeue => simp only [List.cons_append, serve, ih]

/-- Every call for the head is answered, and no other call. -/
theorem length_answers (q : Queue) (calls : List Call) :
    (q.serve calls).2.length = calls.countP Call.isDequeue := by
  induction calls generalizing q with
  | nil => rfl
  | cons call calls ih =>
    cases call with
    | enqueue id => exact ih (q.enqueue id)
    | dequeue =>
      rw [List.countP_cons_of_pos rfl, ← ih q.dequeue.2]
      rfl

/-- Nobody is lost and nobody overtakes, from any queue on. -/
theorem reduceOption_append_ids (q : Queue) (calls : List Call) :
    (q.serve calls).2.reduceOption ++ (q.serve calls).1.ids =
      q.ids ++ calls.filterMap Call.joining? := by
  induction calls generalizing q with
  | nil => simp [serve]
  | cons call calls ih =>
    cases call with
    | enqueue id => simp [serve, ih, Call.joining?]
    | dequeue =>
      rw [List.filterMap_cons_none rfl]
      have later := ih q.dequeue.2
      obtain ⟨ids⟩ := q
      cases ids with
      | nil => exact later
      | cons head tail => exact congrArg (head :: ·) later

/-! ## From the empty queue on -/

/-- Who joined by some calls, in order. -/
def joined (calls : List Call) : List ProcessId := calls.filterMap Call.joining?

/-- The queue behind some calls, at first empty. -/
def after (calls : List Call) : Queue := (empty.serve calls).1

/-- What the calls for the head have got, each of them somebody or nobody. -/
def answers (calls : List Call) : List (Option ProcessId) := (empty.serve calls).2

/-- Who was called for, in order. -/
def called (calls : List Call) : List ProcessId := (answers calls).reduceOption

theorem called_append_ids (calls : List Call) :
    called calls ++ (after calls).ids = joined calls :=
  reduceOption_append_ids empty calls

theorem length_called_add (calls : List Call) :
    (called calls).length + (after calls).length = (joined calls).length := by
  rw [← called_append_ids, List.length_append]
  rfl

/-- Who waits are those who joined, without as many as were called for. -/
theorem ids_after (calls : List Call) :
    (after calls).ids = (joined calls).drop (called calls).length := by
  rw [← called_append_ids, List.drop_left]

/-- A call for the head gets what stands there when it comes. -/
theorem answers_append_dequeue (before later : List Call) :
    (answers (before ++ .dequeue :: later))[before.countP Call.isDequeue]? =
      some (after before).ids.head? := by
  rw [answers, serve_append, ← length_answers empty before, List.getElem?_append_right le_rfl,
    Nat.sub_self]
  rfl

/-- What there is to say about the use of a queue that is empty at first. -/
structure InOrder (calls : List Call) : Prop where
  /-- Who was called for and who still waits are all who joined, in order. -/
  order : called calls ++ (after calls).ids = joined calls
  /-- Every call for the head has one answer, and no other call has. -/
  answered : (answers calls).length = calls.countP Call.isDequeue
  /-- The answer is whoever joined first of those who were not called for before, if there is
  somebody. -/
  first : ∀ before later, calls = before ++ .dequeue :: later →
    (answers calls)[before.countP Call.isDequeue]? =
      some (joined before)[(called before).length]?
  /-- It is nobody exactly if by then as many were called for as had joined. -/
  nobody_iff : ∀ before later, calls = before ++ .dequeue :: later →
    ((answers calls)[before.countP Call.isDequeue]? = some none ↔
      (joined before).length = (called before).length)
  /-- The length is the number of those who joined less the number of those called for. -/
  length : (called calls).length ≤ (joined calls).length ∧
    (after calls).length = (joined calls).length - (called calls).length
  isEmpty_iff : (after calls).isEmpty = true ↔ (after calls).length = 0
  /-- Looking no further than a number of places is enough to tell whether so many wait. -/
  holdsAtLeast_iff : ∀ k, (after calls).holdsAtLeast k = true ↔ k ≤ (after calls).length

/-- However calls follow each other, a queue keeps the order in which it was joined. -/
theorem inOrder (calls : List Call) : InOrder calls := by
  have first : ∀ before later, calls = before ++ .dequeue :: later →
      (answers calls)[before.countP Call.isDequeue]? =
        some (joined before)[(called before).length]? := by
    rintro before later rfl
    rw [answers_append_dequeue, ids_after, List.head?_drop]
  have total := length_called_add calls
  constructor
  case order => exact called_append_ids calls
  case answered => exact length_answers empty calls
  case first => exact first
  case nobody_iff =>
    intro before later split
    have earlier := length_called_add before
    rw [first before later split, Option.some_inj, List.getElem?_eq_none_iff]
    omega
  case length => omega
  case isEmpty_iff => rw [isEmpty_iff, Queue.length, List.length_eq_zero_iff]
  case holdsAtLeast_iff => exact fun k => holdsAtLeast_iff

/-- One that joins twice is called for twice; the calls before anybody joins and after all have gone
get nobody. -/
example :
    let calls : List Call := [.dequeue, .enqueue 4, .enqueue 4, .dequeue, .enqueue 7, .dequeue,
      .dequeue, .dequeue]
    answers calls = [none, some 4, some 4, some 7, none] ∧ (after calls).holdsAtLeast 0 = true ∧
      (after calls).holdsAtLeast 1 = false := by
  decide

end Queue

end Timeshare
