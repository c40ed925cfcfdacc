import Timeshare.Host
import Timeshare.Scheduler.Request

/-!
# Simulations

A simulation is a scheduler at work in a world: images come from the world and records go to it. The
world answers for images only, so what becomes of the records has no effect on the schedule.
-/

namespace Timeshare

/-- A scheduler and the world it works in. -/
structure Simulation (σ : Type) where
  scheduler : Scheduler
  world : σ

namespace Simulation

variable {σ : Type}

/-- Carries out a request. There is no answer if it never comes to an end. -/
def perform (host : Host σ) (s : Simulation σ) (request : Request) :
    Option (Simulation σ × Reply × List Output) :=
  (s.scheduler.perform (host.load s.world) request).map fun t =>
    let (world, outputs) := host.settle s.world (Event.outputs t.events)
    (⟨t.value.2, world⟩, t.value.1, outputs)

def performAll (host : Host σ) (s : Simulation σ) :
    List Request → Option (Simulation σ × List Reply × List Output)
  | [] => some (s, [], [])
  | request :: rest => do
    let (s, reply, outputs) ← s.perform host request
    let (s, replies, further) ← s.performAll host rest
    return (s, reply :: replies, outputs ++ further)

end Simulation

end Timeshare
