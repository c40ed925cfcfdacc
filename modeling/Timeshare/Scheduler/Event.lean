import Timeshare.Fault
import Timeshare.Record

/-!
# Scheduling events

Everything the scheduler does is also said: its operations return, beside their result, the events
that took place, oldest first. The world outside acts on events and never the other way round: a
record of an ended process, for one, is the content of an event, and what becomes of it cannot
change the schedule.
-/

namespace Timeshare

/-- Something that took place in the scheduler. -/
inductive Event where
  /-- A submission was refused because no slot is left. -/
  | tableFull
  /-- A submission was refused because its image could not be read. -/
  | imageUnreadable (path : String) (fault : Fault)
  | created (id : ProcessId) (name : String) (user : Int)
  /-- A process that is gone was dropped from the admission queue. -/
  | discarded (id : ProcessId)
  | admitted (id : ProcessId)
  /-- A process that is gone was dropped from the ready queue. -/
  | skipped (id : ProcessId)
  | dispatched (id : ProcessId)
  /-- A process that used up its slice went back to the ready queue. -/
  | requeued (id : ProcessId)
  | executed (id : ProcessId) (execution : Execution)
  /-- A process ended and left a record. -/
  | terminated (record : Record)
  deriving DecidableEq, Repr

namespace Event

/-- The record that an event carries. -/
def record? : Event → Option Record
  | terminated r => some r
  | _ => none

/-- The records among some events, in order. -/
def records (events : List Event) : List Record := events.filterMap record?

@[simp] theorem records_nil : records [] = [] := rfl

@[simp] theorem records_append (e f : List Event) : records (e ++ f) = records e ++ records f := by
  simp [records]

end Event

/-- A value together with the events on the way to it, oldest first. -/
structure Traced (α : Type) where
  value : α
  events : List Event := []

namespace Traced

variable {α β : Type}

def still (a : α) : Traced α := ⟨a, []⟩

/-- One computation after another: the events add up. -/
def andThen (x : Traced α) (f : α → Traced β) : Traced β :=
  let y := f x.value
  ⟨y.value, x.events ++ y.events⟩

instance : Monad Traced where
  pure := still
  bind := andThen

/-- Says that something took place. -/
def emit (e : Event) : Traced Unit := ⟨(), [e]⟩

def emitAll (es : List Event) : Traced Unit := ⟨(), es⟩

@[simp] theorem value_pure (a : α) : (pure a : Traced α).value = a := rfl

@[simp] theorem events_pure (a : α) : (pure a : Traced α).events = [] := rfl

@[simp] theorem value_bind (x : Traced α) (f : α → Traced β) :
    (x >>= f).value = (f x.value).value := rfl

@[simp] theorem events_bind (x : Traced α) (f : α → Traced β) :
    (x >>= f).events = x.events ++ (f x.value).events := rfl

theorem pure_bind (a : α) (f : α → Traced β) : (pure a >>= f) = f a := rfl

theorem bind_assoc {γ : Type} (x : Traced α) (f : α → Traced β) (g : β → Traced γ) :
    (x >>= f) >>= g = x >>= fun a => f a >>= g := by
  simp [Bind.bind, andThen]

@[simp] theorem value_emit (e : Event) : (emit e).value = () := rfl

@[simp] theorem events_emit (e : Event) : (emit e).events = [e] := rfl

@[simp] theorem value_emitAll (es : List Event) : (emitAll es).value = () := rfl

@[simp] theorem events_emitAll (es : List Event) : (emitAll es).events = es := rfl

end Traced

end Timeshare
