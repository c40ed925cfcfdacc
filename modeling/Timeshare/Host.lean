import Timeshare.Notice

/-!
# Hosts

A host is the world around the scheduler: it has images to read and takes the records of ended
processes. Reading does not change it; taking a record does, and may fail. A program's output goes
through its host, which takes every record that the output announces.
-/

namespace Timeshare

/-- A world of type `σ`. -/
structure Host (σ : Type) where
  /-- The image of that name. -/
  load : σ → String → Except Fault (List UInt8)
  /-- The world after a record was offered to it, and the fault if it was not taken. -/
  keep : σ → Record → σ × Option Fault

/-- A piece of what a program says. -/
inductive Output where
  | say (text : String)
  | complain (text : String)
  | log (notice : Notice)
  deriving DecidableEq, Repr

def Output.record? : Output → Option Record
  | .log (.event e) => e.record?
  | _ => none

/-- What there is to say when a record was offered and met with some fault or none. -/
def Record.lossNotices (r : Record) (fault : Option Fault) : List Output :=
  (fault.map fun f => .log (.recordLost r.status.id f)).toList

namespace Host

variable {σ : Type}

/-- One piece of output. A record is offered to the world first, and its loss is noted before the
end of its process is. -/
def settleOne (host : Host σ) (world : σ) (output : Output) : σ × List Output :=
  match output.record? with
  | none => (world, [output])
  | some r =>
    let (world, fault) := host.keep world r
    (world, r.lossNotices fault ++ [output])

/-- The output of a program as it comes out, in order, and the world behind it. -/
def settle (host : Host σ) (world : σ) (outputs : List Output) : σ × List Output :=
  go world outputs []
where
  go : σ → List Output → List Output → σ × List Output
    | world, [], past => (world, past.reverse)
    | world, output :: rest, past =>
      let (world, done) := settleOne host world output
      go world rest (done.reverseAux past)

end Host

def Event.outputs (events : List Event) : List Output := events.map fun e => .log (.event e)

namespace Output

/-- What some output puts among the results. -/
def said (outputs : List Output) : String :=
  String.join (outputs.map fun
    | .say text => text
    | _ => "")

/-- What some output puts among the complaints. -/
def complained (outputs : List Output) : String :=
  String.join (outputs.map fun
    | .complain text => text
    | _ => "")

/-- The notices in some output that a log up to a level shows. -/
def notices (limit : Option Level) (outputs : List Output) : List Notice :=
  outputs.filterMap fun
    | .log n => if n.level.shownBy limit then some n else none
    | _ => none

/-- Complaints and log lines in the order in which they came about. -/
def diagnostics (limit : Option Level) (outputs : List Output) : String :=
  String.join (outputs.map fun
    | .say _ => ""
    | .complain text => text
    | .log n => if n.level.shownBy limit then n.line else "")

end Output

end Timeshare
