/-!
# Instructions

A word is an instruction: its upper three bits choose the operation and its lower five bits are the
address that the operation works on. Every word decodes.
-/

namespace Timeshare

/-- An operand: the address of a word of memory. -/
abbrev Address := Fin 32

inductive Instruction where
  | stop
  | load (address : Address)
  | store (address : Address)
  | add (address : Address)
  | subtract (address : Address)
  | branchIfPositive (address : Address)
  | branchIfNegative (address : Address)
  | branchIfZero (address : Address)
  deriving DecidableEq, Repr

namespace Instruction

/-- The lower five bits of a word. -/
def operand (word : UInt8) : Address := ⟨word.toNat % 32, Nat.mod_lt _ (by decide)⟩

/-- The instruction that a word stands for; a STOP ignores its operand. -/
def decode (word : UInt8) : Instruction :=
  match word.toNat / 32 with
  | 0 => stop
  | 1 => load (operand word)
  | 2 => store (operand word)
  | 3 => add (operand word)
  | 4 => subtract (operand word)
  | 5 => branchIfPositive (operand word)
  | 6 => branchIfNegative (operand word)
  | _ => branchIfZero (operand word)

/-- The instruction in words, with its address in brackets. -/
def text : Instruction → String
  | stop => "Stop"
  | load a => "Load(" ++ toString a.val ++ ")"
  | store a => "Store(" ++ toString a.val ++ ")"
  | add a => "Add(" ++ toString a.val ++ ")"
  | subtract a => "Subtract(" ++ toString a.val ++ ")"
  | branchIfPositive a => "BranchIfPositive(" ++ toString a.val ++ ")"
  | branchIfNegative a => "BranchIfNegative(" ++ toString a.val ++ ")"
  | branchIfZero a => "BranchIfZero(" ++ toString a.val ++ ")"

end Instruction

end Timeshare
