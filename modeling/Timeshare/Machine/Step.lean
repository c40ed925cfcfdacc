import Timeshare.Machine.Flags
import Timeshare.Machine.Instruction
import Timeshare.Machine.Memory

/-!
# The accumulator machine

A machine has a program counter, one accumulator, status flags and its memory. One step fetches the
instruction under the counter, moves the counter to the next address and carries the instruction
out. A STOP changes nothing more.
-/

namespace Timeshare

/-- What a running program can see and change. -/
structure Machine where
  counter : Nat := 0
  accumulator : UInt8 := 0
  flags : Flags := Flags.clear
  memory : Memory
  deriving DecidableEq, Repr

namespace Machine

/-- A machine about to run an image from address zero. -/
def ofImage (image : List UInt8) : Machine := { memory := Memory.ofImage image }

/-- The instruction under the counter. -/
def fetch (m : Machine) : Instruction := Instruction.decode (m.memory.read m.counter)

/-- An arithmetic result raises its flags and leaves its low byte in the accumulator. -/
def setResult (m : Machine) (result : Int) : Machine :=
  { m with
    flags := m.flags.raise (Flags.ofResult result)
    accumulator := UInt8.ofNat (result % 256).toNat }

/-- A branch is taken when the zero and negative flags are exactly as asked; overflow plays no
part. -/
def branchIf (m : Machine) (zero negative : Bool) (address : Address) : Machine :=
  if m.flags.zero = zero ∧ m.flags.negative = negative then { m with counter := address.val }
  else m

/-- The effect of an instruction once the counter has moved on. -/
def execute (m : Machine) : Instruction → Machine
  | .stop => m
  | .load a => { m with accumulator := m.memory.read a }
  | .store a => { m with memory := m.memory.write a m.accumulator }
  | .add a => m.setResult ((m.accumulator.toNat : Int) + (m.memory.read a).toNat)
  | .subtract a => m.setResult ((m.accumulator.toNat : Int) - (m.memory.read a).toNat)
  | .branchIfPositive a => m.branchIf false false a
  | .branchIfNegative a => m.branchIf false true a
  | .branchIfZero a => m.branchIf true false a

def step (m : Machine) : Machine := { m with counter := m.counter + 1 }.execute m.fetch

end Machine

end Timeshare
