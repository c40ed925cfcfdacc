/-!
# Integers in decimal

An integer is written with one or more decimal digits, after at most one sign. A weaker test says
what has the looks of a number: digits with at most one point and at most one exponent mark.
-/

namespace Timeshare

namespace Integer

/-- The value of one or more digits. -/
def digits? (cs : List Char) : Option Nat :=
  if cs ≠ [] ∧ cs.all Char.isDigit then some (Nat.ofDigitChars 10 cs 0) else none

/-- The value of digits after an optional sign. -/
def read? (text : String) : Option Int :=
  match text.toList with
  | '-' :: cs => (digits? cs).map fun n => -(n : Int)
  | '+' :: cs => (digits? cs).map Int.ofNat
  | cs => (digits? cs).map Int.ofNat

/-- The value of an integer that has room in a number of bits, sign included. -/
def readWithin? (bits : Nat) (text : String) : Option Int :=
  let bound : Int := Nat.pow 2 (bits - 1)
  (read? text).filter fun n => -bound ≤ n && n < bound

/-- Whether digits, a point and an exponent mark stand as in a number: the point neither first nor
behind the mark, and the mark neither first nor last. -/
def looksNumeric (cs : List Char) : Bool :=
  go false false false cs
where
  go (begun point mark : Bool) : List Char → Bool
    | [] => true
    | c :: cs =>
      if c.isDigit then go true point mark cs
      else if c = '.' then begun && !point && !mark && go true true mark cs
      else if c = 'e' ∨ c = 'E' then begun && !mark && !cs.isEmpty && go true point true cs
      else false

end Integer

end Timeshare
