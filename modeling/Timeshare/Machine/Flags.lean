/-!
# Status flags

Three marks that arithmetic leaves behind. Marks only accumulate: there is an operation that raises
them and none that clears one.
-/

namespace Timeshare

/-- Whether an exact result was zero, below zero, or above what a word can hold. -/
structure Flags where
  zero : Bool := false
  negative : Bool := false
  overflow : Bool := false
  deriving DecidableEq, Repr

namespace Flags

def clear : Flags := {}

/-- The marks of either side. -/
def raise (f g : Flags) : Flags where
  zero := f.zero || g.zero
  negative := f.negative || g.negative
  overflow := f.overflow || g.overflow

/-- The marks as a status word: zero weighs 1, negative 2 and overflow 4. -/
def bits (f : Flags) : UInt8 :=
  (if f.zero then 1 else 0) + (if f.negative then 2 else 0) + (if f.overflow then 4 else 0)

/-- The marks of an exact arithmetic result. -/
def ofResult (result : Int) : Flags where
  zero := result == 0
  negative := result < 0
  overflow := result > 255

end Flags

end Timeshare
