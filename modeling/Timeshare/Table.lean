import Timeshare.Process.Basic

/-!
# The process table

Processes are kept in numbered slots. A slot is filled once, by the process whose identifier is its
number, and emptied when that process ends; it is never filled again, so a capacity bounds the
number of processes ever created.
-/

namespace Timeshare

/-- All slots handed out so far, in order; those of ended processes are empty. -/
structure Table where
  slots : List (Option Process) := []
  deriving DecidableEq, Repr

namespace Table

def empty : Table := {}

/-- The identifier of the next process to be created. -/
def nextId (t : Table) : ProcessId := t.slots.length

/-- The process of that identifier, if it is in the table. -/
def get? (t : Table) (id : ProcessId) : Option Process := t.slots[id]?.join

def insert (t : Table) (p : Process) : Table := ⟨t.slots ++ [some p]⟩

/-- Changes the process of that identifier, if it is in the table. -/
def update (t : Table) (id : ProcessId) (f : Process → Process) : Table :=
  ⟨t.slots.modify id (Option.map f)⟩

def remove (t : Table) (id : ProcessId) : Table := ⟨t.slots.set id none⟩

/-- Whether that process is in the table and not dead. -/
def isLive (t : Table) (id : ProcessId) : Bool := (t.get? id).any fun p => !p.dead

/-- The processes in the table, in the order of their identifiers. -/
def processes (t : Table) : List Process := t.slots.filterMap id

@[simp] theorem nextId_empty : empty.nextId = 0 := rfl

@[simp] theorem get?_empty (id : ProcessId) : empty.get? id = none := rfl

@[simp] theorem nextId_insert (t : Table) (p : Process) :
    (t.insert p).nextId = t.nextId + 1 := by
  simp [nextId, insert]

@[simp] theorem nextId_update (t : Table) (id : ProcessId) (f : Process → Process) :
    (t.update id f).nextId = t.nextId := by
  simp [nextId, update]

@[simp] theorem nextId_remove (t : Table) (id : ProcessId) :
    (t.remove id).nextId = t.nextId := by
  simp [nextId, remove]

theorem get?_insert (t : Table) (p : Process) (id : ProcessId) :
    (t.insert p).get? id = if id = t.nextId then some p else t.get? id := by
  simp only [get?, insert, nextId, List.getElem?_append]
  grind

theorem get?_update (t : Table) (id other : ProcessId) (f : Process → Process) :
    (t.update id f).get? other = if other = id then (t.get? id).map f else t.get? other := by
  simp only [get?, update, List.getElem?_modify]
  by_cases h : id = other
  · subst h
    cases t.slots[id]? <;> simp
  · simp [h, Ne.symm h]

theorem get?_remove (t : Table) (id other : ProcessId) :
    (t.remove id).get? other = if other = id then none else t.get? other := by
  simp only [get?, remove, List.getElem?_set]
  grind

end Table

end Timeshare
