/-!
# Memory

Every process owns 32 words of eight bits. Reading outside them gives zero, which is the word of a
STOP instruction; writing outside them changes nothing.
-/

namespace Timeshare

abbrev wordCount : Nat := 32

/-- The words of a process, by address. -/
abbrev Memory := Vector UInt8 wordCount

namespace Memory

/-- The first 32 bytes of an image, filled up with zeros. -/
def ofImage (image : List UInt8) : Memory :=
  ⟨((image.take wordCount).rightpad wordCount 0).toArray, by
    rw [List.size_toArray, List.length_rightpad, List.length_take]
    exact Nat.max_eq_left (Nat.min_le_left _ _)⟩

/-- The word at an address, zero past the end. -/
def read (m : Memory) (address : Nat) : UInt8 := m[address]?.getD 0

def write (m : Memory) (address : Nat) (word : UInt8) : Memory := m.setIfInBounds address word

/-- The words in order, eight to a row. -/
def rows (m : Memory) : List (List UInt8) :=
  [0, 8, 16, 24].map fun start => (m.toList.drop start).take 8

end Memory

end Timeshare
