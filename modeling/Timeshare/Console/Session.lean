import Timeshare.Console.Basic
import Timeshare.Text.Lines

/-!
# Console sessions

A session is a console at work in a world. It reads an input line by line, each line taking full
effect before the next is read, until the input ends, a line asks to stop or a line is no text.
-/

namespace Timeshare

/-- A console and the world it works in. -/
structure Session (σ : Type) where
  console : Console
  world : σ

inductive Closing where
  | endOfInput
  | exited
  | failed (fault : Fault)
  deriving DecidableEq, Repr

namespace Session

variable {σ : Type}

/-- Reads one line. There is no answer if the line asks for what never comes to an end. -/
def feed (host : Host σ) (s : Session σ) (line : List UInt8) :
    Option (Session σ × List Output × Flow) :=
  match Lines.text? line with
  | none => some (s, [], .failed .invalidText)
  | some text =>
    (s.console.interpret (host.load s.world) text).map fun (console, outputs, flow) =>
      let (world, outputs) := host.settle s.world outputs
      ({ console, world }, outputs, flow)

/-- Reads lines until one ends the session. -/
def feedAll (host : Host σ) (s : Session σ) : List (List UInt8) →
    Option (Session σ × List Output × Closing)
  | [] => some (s, [], .endOfInput)
  | line :: rest =>
    match s.feed host line with
    | none => none
    | some (s, outputs, .exit) => some (s, outputs, .exited)
    | some (s, outputs, .failed fault) => some (s, outputs, .failed fault)
    | some (s, outputs, .proceed) =>
      (s.feedAll host rest).map fun (s, further, closing) => (s, outputs ++ further, closing)

def run (host : Host σ) (s : Session σ) (input : List UInt8) :
    Option (Session σ × List Output × Closing) :=
  s.feedAll host (Lines.ofBytes input)

end Session

end Timeshare
