/-!
# Lines of bytes

Input comes in bytes. A line ends at a line feed, which does not belong to it, nor does one carriage
return right before; what stands behind the last line feed is a line too, unless it is empty. A line
has a text if it is UTF-8.
-/

namespace Timeshare

namespace Lines

/-- A line without the carriage return at its end. -/
def trim (line : List UInt8) : List UInt8 :=
  if line.getLast? = some 13 then line.dropLast else line

/-- The lines that have come to their end in some bytes, and the bytes behind them. -/
def complete (bytes : List UInt8) : List (List UInt8) × List UInt8 :=
  let pieces := bytes.splitOn 10
  (pieces.dropLast.map trim, pieces.getLast?.getD [])

/-- The lines of an input. -/
def ofBytes (input : List UInt8) : List (List UInt8) :=
  let (lines, rest) := complete input
  lines ++ (if rest = [] then [] else [rest])

def text? (line : List UInt8) : Option String := String.fromUTF8? ⟨line.toArray⟩

end Lines

end Timeshare
