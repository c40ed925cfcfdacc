import Timeshare.Scheduler.RunAll

/-!
# Requests

All that can be asked of a scheduler, as data, with what it answers. A request for the image in a
file comes with what reading files yields; nothing else reaches a scheduler from outside.
-/

namespace Timeshare

/-- Something asked of a scheduler. -/
inductive Request where
  /-- Create a process from the image in a file. -/
  | submit (user : Int) (priority : Priority) (budget : Cycles) (path : String)
  /-- Create a process from an image at hand. -/
  | submitImage (submission : Submission)
  | kill (id : Int)
  | tick
  /-- Let ticks pass until nothing is left. -/
  | runAll
  deriving DecidableEq, Repr

/-- What a scheduler answers. -/
inductive Reply where
  | done
  | created (id : ProcessId)
  | refused (refusal : Refusal)
  deriving DecidableEq, Repr

namespace Reply

def ofSubmission : Except Refusal ProcessId → Reply
  | .ok id => created id
  | .error refusal => refused refusal

def ofKill : Except Refusal Unit → Reply
  | .ok () => done
  | .error refusal => refused refusal

/-- Whether nothing was refused. -/
def isGranted : Reply → Bool
  | refused _ => false
  | _ => true

end Reply

/-- Carries out a request, given what reading a file yields. There is no answer if the request never
comes to an end. -/
def Scheduler.perform (s : Scheduler) (load : String → Except Fault (List UInt8)) :
    Request → Option (Traced (Reply × Scheduler))
  | .submit user priority budget path => some do
    let (result, s) ← s.submit user priority budget path (load path)
    return (.ofSubmission result, s)
  | .submitImage submission => some do
    let (result, s) ← s.submitImage submission
    return (.ofSubmission result, s)
  | .kill id => some do
    let (result, s) ← s.kill id
    return (.ofKill result, s)
  | .tick => some do
    let s ← s.tick
    return (.done, s)
  | .runAll => s.runAll.map fun t => ⟨(.done, t.value), t.events⟩

end Timeshare
