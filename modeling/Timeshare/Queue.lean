/-!
# Process queues

A first-in first-out line of process identifiers. Processes themselves live in the process table; a
queue holds only their identifiers, and may keep one whose process is gone until it reaches the
head. The view of a queue is the list `ids`, head first.
-/

namespace Timeshare

/-- Identifiers are slot numbers of the process table, handed out in order from zero. -/
abbrev ProcessId := Nat

/-- The waiting identifiers, head first. -/
structure Queue where
  ids : List ProcessId := []
  deriving DecidableEq, Repr

namespace Queue

def empty : Queue := {}

def enqueue (q : Queue) (id : ProcessId) : Queue := ⟨q.ids ++ [id]⟩

/-- The head and the queue without it; an empty queue has no head and stays as it is. -/
def dequeue (q : Queue) : Option ProcessId × Queue := (q.ids.head?, ⟨q.ids.tail⟩)

def isEmpty (q : Queue) : Bool := q.ids.isEmpty

def length (q : Queue) : Nat := q.ids.length

/-- Whether at least `k` identifiers wait; no more than `k` of them are looked at. -/
def holdsAtLeast (q : Queue) (k : Nat) : Bool := (q.ids.take k).length == k

/-- What stands before the first identifier that `alive` accepts, that identifier if there is one,
and the queue behind it. -/
def takeFirst (q : Queue) (alive : ProcessId → Bool) :
    List ProcessId × Option ProcessId × Queue :=
  let rest := q.ids.dropWhile fun id => !alive id
  (q.ids.takeWhile fun id => !alive id, rest.head?, ⟨rest.tail⟩)

@[simp] theorem ids_empty : empty.ids = [] := rfl

@[simp] theorem ids_enqueue (q : Queue) (id : ProcessId) : (q.enqueue id).ids = q.ids ++ [id] := rfl

@[simp] theorem fst_dequeue (q : Queue) : q.dequeue.1 = q.ids.head? := rfl

@[simp] theorem ids_dequeue (q : Queue) : q.dequeue.2.ids = q.ids.tail := rfl

theorem isEmpty_iff {q : Queue} : q.isEmpty = true ↔ q.ids = [] := by
  simp [isEmpty]

theorem holdsAtLeast_iff {q : Queue} {k : Nat} : q.holdsAtLeast k = true ↔ k ≤ q.length := by
  simp only [holdsAtLeast, length, List.length_take, beq_iff_eq]
  omega

end Queue

end Timeshare
