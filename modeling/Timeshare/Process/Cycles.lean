/-!
# Cycle counters

Instructions are counted in 32 bits. The counter stops at its largest value and never wraps, so a
larger count always means more work done; `toNat_next` says so in natural numbers. A count may also
be asked for as an integer, and is then the nearest one there is (`toNat_nearest`).
-/

namespace Timeshare

/-- A number of instructions, at most `2 ^ 32 - 1`. -/
abbrev Cycles := UInt32

namespace Cycles

def limit : Cycles := 4294967295

/-- One more instruction, unless the counter is at its limit. -/
def next (c : Cycles) : Cycles := if c = limit then limit else c + 1

/-- The count nearest to an integer. -/
def nearest (n : Int) : Cycles := UInt32.ofNat (min n.toNat limit.toNat)

theorem toNat_limit : limit.toNat = 4294967295 := rfl

theorem eq_limit_iff {c : Cycles} : c = limit ↔ c.toNat = 4294967295 :=
  UInt32.toNat_inj.symm.trans (by rw [toNat_limit])

theorem toNat_next (c : Cycles) : (next c).toNat = min (c.toNat + 1) 4294967295 := by
  unfold next
  split
  case isTrue h => subst h; rfl
  case isFalse h =>
    have hne : c.toNat ≠ 4294967295 := fun e => h (eq_limit_iff.mpr e)
    have hlt := c.toNat_lt
    rw [UInt32.toNat_add]
    have : (1 : UInt32).toNat = 1 := rfl
    omega

theorem toNat_nearest (n : Int) : (nearest n).toNat = min n.toNat 4294967295 := by
  unfold nearest
  rw [UInt32.toNat_ofNat_of_lt', toNat_limit]
  have := toNat_limit
  simp only [UInt32.size]
  omega

end Cycles

end Timeshare
