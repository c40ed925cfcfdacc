import Timeshare.Console.Session

/-!
# Scripts

A script is an input that lies in the world its session works in. It is read block by block: the
next block is taken from where the last one ended, once all complete lines so far have had their
effect, and it holds what the world has there by then. At the end of the input an unfinished line
counts as a line, and since that line too may change the world, the end is looked for once more
behind it.
-/

namespace Timeshare

namespace Session

variable {σ : Type}

/-- Goes on with a session, unless its reading came to an early end. -/
def andThen (first : Option (Session σ × List Output × Closing))
    (next : Session σ → Option (Session σ × List Output × Closing)) :
    Option (Session σ × List Output × Closing) :=
  match first with
  | some (s, outputs, .endOfInput) =>
    (next s).map fun (s, further, closing) => (s, outputs ++ further, closing)
  | stopped => stopped

/-- Reads a script. What `block` yields for a world and an offset are the next bytes from there,
none at the end; nothing is looked for at or behind the offset `limit`. -/
def follow (host : Host σ) (block : σ → Nat → Except Fault (List UInt8)) (limit : Nat)
    (s : Session σ) : Option (Session σ × List Output × Closing) :=
  go s 0 []
where
  go (s : Session σ) (offset : Nat) (unfinished : List UInt8) :
      Option (Session σ × List Output × Closing) :=
    match block s.world offset with
    | .error fault => some (s, [], .failed fault)
    | .ok bytes =>
      if bytes = [] ∨ limit ≤ offset then
        if unfinished = [] then some (s, [], .endOfInput)
        else andThen (s.feedAll host [unfinished]) fun s => go s offset []
      else
        let (lines, rest) := Lines.complete (unfinished ++ bytes)
        andThen (s.feedAll host lines) fun s => go s (offset + bytes.length) rest
  termination_by (limit - offset, unfinished.length)
  decreasing_by
    case _ =>
      right
      exact List.length_pos_iff.mpr ‹_›
    case _ h =>
      left
      have := List.length_pos_iff.mpr (not_or.mp h).1
      omega

end Session

end Timeshare
