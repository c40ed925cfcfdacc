import Mathlib
import Timeshare.Text.Integer

/-!
# Integers as they are written

A numeral is a digit, or a numeral with one more digit behind it, and every digit counts ten times
as much as the next one. What is read as an integer is exactly a numeral behind at most one sign
(`read?_eq_some_iff`), and a width only limits its value (`readWithin?_eq_some_iff`). What is written
for a number is a numeral, so it is read back (`digits?_toString`, `read?_toString`).
-/

namespace Timeshare

namespace Integer

/-- Decimal digits and the number that they stand for. -/
inductive Numeral : List Char → Nat → Prop
  | digit {d : Nat} : d < 10 → Numeral [Nat.digitChar d] d
  | snoc {cs : List Char} {n d : Nat} :
      Numeral cs n → d < 10 → Numeral (cs ++ [Nat.digitChar d]) (10 * n + d)

/-- A numeral behind a sign or none, and the integer that it stands for. -/
inductive Signed : List Char → Int → Prop
  | plain {cs : List Char} {n : Nat} : Numeral cs n → Signed cs n
  | plus {cs : List Char} {n : Nat} : Numeral cs n → Signed ('+' :: cs) n
  | minus {cs : List Char} {n : Nat} : Numeral cs n → Signed ('-' :: cs) (-n)

/-- A text is an integer that has room in a number of bits. -/
structure Written (bits : Nat) (text : String) (n : Int) : Prop where
  signed : Signed text.toList n
  lower : -2 ^ (bits - 1) ≤ n
  upper : n < 2 ^ (bits - 1)

variable {c : Char} {cs : List Char} {n d : Nat}

/-! ## Numerals -/

theorem exists_digitChar (h : c.isDigit = true) : ∃ d < 10, c = Nat.digitChar d := by
  obtain ⟨low, high⟩ := Char.isDigit_iff_toNat.mp h
  have zero : '0'.toNat = 48 := rfl
  have nine : '9'.toNat = 57 := rfl
  have small : c.toNat - 48 < 10 := by omega
  refine ⟨c.toNat - 48, small, Char.toNat_inj.mp ?_⟩
  rw [Nat.toNat_digitChar_of_lt_ten small]
  omega

theorem Numeral.ne_nil (h : Numeral cs n) : cs ≠ [] := by
  cases h <;> simp

theorem Numeral.isDigit (h : Numeral cs n) : ∀ c ∈ cs, c.isDigit = true := by
  induction h with
  | digit hd => simpa using hd
  | snoc _ hd ih => simpa [or_imp, forall_and, hd] using ih

theorem Numeral.value (h : Numeral cs n) : Nat.ofDigitChars 10 cs 0 = n := by
  induction h with
  | digit hd => simp [Nat.ofDigitChars_cons_digitChar_of_lt_ten hd]
  | snoc _ hd ih =>
    rw [Nat.ofDigitChars_append, ih, Nat.ofDigitChars_cons_digitChar_of_lt_ten hd,
      Nat.ofDigitChars_nil]

theorem numeral_of_isDigit (filled : cs ≠ []) (digits : ∀ c ∈ cs, c.isDigit = true) :
    ∃ n, Numeral cs n := by
  induction cs using List.reverseRecOn with
  | nil => exact absurd rfl filled
  | append_singleton front c ih =>
    obtain ⟨d, hd, rfl⟩ := exists_digitChar (digits c (by simp))
    by_cases first : front = []
    · subst first
      exact ⟨d, .digit hd⟩
    · obtain ⟨n, h⟩ := ih first fun c hc => digits c (by simp [hc])
      exact ⟨10 * n + d, .snoc h hd⟩

theorem digits?_eq_some_iff : digits? cs = some n ↔ Numeral cs n := by
  constructor
  · intro h
    rw [digits?, Option.ite_none_right_eq_some, List.all_eq_true] at h
    obtain ⟨⟨filled, digits⟩, value⟩ := h
    obtain ⟨m, numeral⟩ := numeral_of_isDigit filled digits
    rw [← Option.some.inj value, numeral.value]
    exact numeral
  · intro h
    rw [digits?, if_pos ⟨h.ne_nil, List.all_eq_true.mpr h.isDigit⟩, h.value]

/-! ## Integers -/

/-- A numeral has no sign. -/
theorem Numeral.head_isDigit (h : Numeral (c :: cs) n) : c.isDigit = true :=
  h.isDigit c List.mem_cons_self

theorem read?_eq_some_iff {text : String} {k : Int} :
    read? text = some k ↔ Signed text.toList k := by
  rw [read?]
  generalize text.toList = cs
  split
  case h_1 cs =>
    constructor
    · intro h
      cases found : digits? cs with
      | none => simp [found] at h
      | some n =>
        obtain rfl : -(n : Int) = k := by simpa [found] using h
        exact .minus (digits?_eq_some_iff.mp found)
    · intro h
      cases h with
      | plain numeral => exact absurd numeral.head_isDigit (by decide)
      | minus numeral => simp [digits?_eq_some_iff.mpr numeral]
  case h_2 cs =>
    constructor
    · intro h
      obtain ⟨n, found, rfl⟩ := Option.map_eq_some_iff.mp h
      exact .plus (digits?_eq_some_iff.mp found)
    · intro h
      cases h with
      | plain numeral => exact absurd numeral.head_isDigit (by decide)
      | plus numeral => simp [digits?_eq_some_iff.mpr numeral]
  case h_3 cs negative positive =>
    constructor
    · intro h
      obtain ⟨n, found, rfl⟩ := Option.map_eq_some_iff.mp h
      exact .plain (digits?_eq_some_iff.mp found)
    · intro h
      cases h with
      | plain numeral => simp [digits?_eq_some_iff.mpr numeral]
      | plus _ => exact absurd rfl (positive _)
      | minus _ => exact absurd rfl (negative _)

theorem readWithin?_eq_some_iff {bits : Nat} {text : String} {k : Int} :
    readWithin? bits text = some k ↔ Written bits text k := by
  rw [readWithin?, Option.filter_eq_some_iff, read?_eq_some_iff]
  simp only [Nat.pow_eq, Nat.cast_pow, Nat.cast_ofNat, Bool.and_eq_true, decide_eq_true_eq]
  exact ⟨fun h => ⟨h.1, h.2.1, h.2.2⟩, fun h => ⟨h.signed, h.lower, h.upper⟩⟩

/-! ## Written numbers -/

theorem digits?_toString (n : Nat) : digits? (toString n).toList = some n := by
  rw [Nat.toString_eq_repr, Nat.toList_repr, digits?, if_pos, Nat.ofDigitChars_ten_toDigits]
  refine ⟨Nat.toDigits_ne_nil, List.all_eq_true.mpr fun c => ?_⟩
  exact Nat.isDigit_of_mem_toDigits (by decide) (by decide)

theorem numeral_toString (n : Nat) : Numeral (toString n).toList n :=
  digits?_eq_some_iff.mp (digits?_toString n)

theorem toList_toString_negSucc (n : Nat) :
    (toString (Int.negSucc n)).toList = '-' :: (toString (n + 1)).toList := by
  rw [Int.toString_eq_repr, Int.repr, String.toList_append]
  rfl

theorem read?_toString (n : Int) : read? (toString n) = some n := by
  rw [read?_eq_some_iff]
  cases n with
  | ofNat n => exact .plain (numeral_toString n)
  | negSucc n =>
    rw [toList_toString_negSucc]
    exact .minus (numeral_toString (n + 1))

/-- A number is written with digits and a dash at most. -/
theorem not_mem_toString {c : Char} (digit : c.isDigit = false) (sign : c ≠ '-') (n : Int) :
    c ∉ (toString n).toList := by
  have numeral : ∀ k : Nat, c ∉ (toString k).toList := fun k h =>
    Bool.false_ne_true (digit.symm.trans ((numeral_toString k).isDigit c h))
  cases n with
  | ofNat n => exact numeral n
  | negSucc n =>
    rw [toList_toString_negSucc, List.mem_cons, not_or]
    exact ⟨sign, numeral (n + 1)⟩

/-! ## What looks like a number -/

theorem looksNumeric_go (digits : ∀ c ∈ cs, c.isDigit = true) (begun point mark : Bool) :
    looksNumeric.go begun point mark cs = true := by
  induction cs generalizing begun with
  | nil => rfl
  | cons c rest ih =>
    obtain ⟨first, later⟩ := List.forall_mem_cons.mp digits
    rw [looksNumeric.go, if_pos first]
    exact ih later true

/-- Numerals look like numbers. -/
theorem Numeral.looksNumeric (h : Numeral cs n) : looksNumeric cs = true :=
  looksNumeric_go h.isDigit false false false

end Integer

end Timeshare
