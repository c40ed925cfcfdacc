import Mathlib
import Timeshare.Command.Parser
import Timeshare.Proofs.Text.Integer

/-!
# Filling arguments

`Fill` says which values some words give to some arguments, word by word and without any order of
checks. Taking words one after another, with the look at a value put off, comes to these values and
to no others (`fill_eq_ok_iff`). When it fails, the words tell why: `usage_of_fill` and
`badArguments_of_fill` name the causes of the two errors.
-/

namespace Timeshare

namespace Command

/-- What a word has to be to give a value to an argument. -/
inductive Suits : Argument → String → Value → Prop
  | integer {bits : Nat} {text : String} {n : Int} :
      Integer.Written bits text n → Suits (.integer bits) text (.integer n)
  | word {text : String} :
      (text.toList.head? = some '-' → text = "-") → Suits .word text (.word text)

/-- The first words give their values to the arguments, and there may be more words. -/
inductive Fill : List Argument → List String → List Value → Prop
  | done (rest : List String) : Fill [] rest []
  | next {argument : Argument} {due : List Argument} {word : String} {rest : List String}
      {value : Value} {values : List Value} :
      Suits argument word value → Fill due rest values →
        Fill (argument :: due) (word :: rest) (value :: values)

variable {argument : Argument} {due : List Argument} {word : String} {rest : List String}

@[simp] theorem fill_nil_iff {values : List Value} : Fill [] rest values ↔ values = [] := by
  constructor
  · rintro ⟨⟩
    rfl
  · rintro rfl
    exact .done rest

@[simp] theorem not_fill_cons_nil {values : List Value} : ¬ Fill (argument :: due) [] values :=
  nofun

theorem fill_cons_iff {values : List Value} : Fill (argument :: due) (word :: rest) values ↔
    ∃ value further, Suits argument word value ∧ Fill due rest further ∧
      values = value :: further := by
  constructor
  · rintro (_ | ⟨suits, filled⟩)
    exact ⟨_, _, suits, filled, rfl⟩
  · rintro ⟨value, further, suits, filled, rfl⟩
    exact .next suits filled

/-! ## Flags and values -/

theorem head?_of_isFlag (h : isFlag due word = true) : word.toList.head? = some '-' := by
  unfold isFlag at h
  split at h
  case h_1 first => rw [first, List.head?_cons]
  case h_2 _ first => rw [first, List.head?_cons]
  case h_3 => cases h

/-- A negative integer is no flag where an integer is due. -/
theorem isFlag_of_written {bits : Nat} {n : Int} (h : Integer.Written bits word n) :
    isFlag (.integer bits :: due) word = false := by
  have signed := h.signed
  unfold isFlag
  split
  case h_1 first =>
    rw [first] at signed
    cases signed with
    | plain numeral => exact absurd numeral.head_isDigit (by decide)
    | minus numeral => exact absurd numeral.head_isDigit (by decide)
  case h_2 _ first =>
    rw [first] at signed
    cases signed with
    | plain numeral => exact absurd numeral.head_isDigit (by decide)
    | minus numeral => simpa using numeral.looksNumeric
  case h_3 => rfl

theorem isFlag_word_iff :
    isFlag (.word :: due) word = false ↔ (word.toList.head? = some '-' → word = "-") := by
  constructor
  · intro h dash
    unfold isFlag at h
    split at h
    case h_1 => cases h
    case h_2 => cases h
    case h_3 longer long =>
      obtain ⟨cs, spelled⟩ : ∃ cs, word.toList = '-' :: cs := by
        cases spelled : word.toList with
        | nil => simp [spelled] at dash
        | cons c cs => exact ⟨cs, by simpa [spelled] using dash⟩
      cases cs with
      | nil => exact String.toList_inj.mp spelled
      | cons c cs => exact absurd spelled (long c cs)
  · intro h
    by_contra flag
    rw [Bool.not_eq_false] at flag
    rw [h (head?_of_isFlag flag)] at flag
    exact absurd flag (by simp [isFlag])

/-- A word gives a value to an argument if it is no flag and the look at it succeeds. -/
theorem suits_iff (due : List Argument) {value : Value} : Suits argument word value ↔
    isFlag (argument :: due) word = false ∧ Value.ofWord? argument word = some value := by
  constructor
  · rintro (h | h)
    · exact ⟨isFlag_of_written h, by simp [Value.ofWord?, Integer.readWithin?_eq_some_iff.mpr h]⟩
    · exact ⟨isFlag_word_iff.mpr h, rfl⟩
  · rintro ⟨plain, value⟩
    cases argument with
    | integer bits =>
      obtain ⟨n, h, rfl⟩ := Option.map_eq_some_iff.mp value
      exact .integer (Integer.readWithin?_eq_some_iff.mp h)
    | word =>
      cases value
      exact .word (isFlag_word_iff.mp plain)

/-- The look at a value fails at words that are no integers, and only there. -/
theorem ofWord?_eq_none_iff : Value.ofWord? argument word = none ↔
    ∃ bits, argument = .integer bits ∧ ∀ n, ¬ Integer.Written bits word n := by
  cases argument with
  | integer bits => simp [Value.ofWord?, Option.eq_none_iff_forall_ne_some,
      Integer.readWithin?_eq_some_iff]
  | word => simp [Value.ofWord?]

namespace Filling

variable {verb : Verb} {f : Filling} {values : List Value} {error : CommandError}

/-! ## Taking words -/

/-- Takes as many words as arguments are due, and looks at the last value. -/
def fill (verb : Verb) (f : Filling) (words : List String) : Except CommandError (List Value) := do
  let f ← (words.take f.due.length).foldlM (take verb) f
  f.finish verb

theorem settle_eq_error (h : f.settle = .error error) : error = .badArguments := by
  unfold settle at h
  split at h
  · cases h
  · split at h <;> cases h
    rfl

theorem settle_plain (f : Filling) (plain : Bool) : settle { f with plain } = f.settle := rfl

/-- The look at a pending value adds it to the others. -/
theorem settle_pending_eq_ok_iff {plain : Bool} {past looked : List Value} :
    settle ⟨plain, some (argument, word), due, past⟩ = .ok looked ↔
      ∃ value, Value.ofWord? argument word = some value ∧ looked = past ++ [value] := by
  simp only [settle]
  cases Value.ofWord? argument word with
  | none => simp
  | some value => simp [eq_comm]

theorem fill_of_full (full : f.due = []) (words : List String) :
    f.fill verb words = f.settle := by
  rw [fill, full, List.length_nil, List.take_zero, List.foldlM_nil, pure_bind, finish]
  cases f.settle with
  | error error => rfl
  | ok values => simp [full]

theorem fill_nil (lacks : f.due = argument :: due) :
    f.fill verb [] = f.settle >>= fun _ => .error (.usage verb) := by
  rw [fill, List.take_nil, List.foldlM_nil, pure_bind, finish]
  simp [lacks]

/-- The word that makes values of all words after it uses up its own place. -/
theorem fill_escape (lacks : f.due = argument :: due) (flags : f.plain = false) :
    f.fill verb ("--" :: rest) = fill verb { f with plain := true } (rest.take due.length) := by
  have first : take verb f "--" = .ok { f with plain := true } := by simp [take, flags]
  have enough : (rest.take due.length).take (due.length + 1) = rest.take due.length := by
    simp [List.take_take]
  simp only [fill, lacks, List.length_cons, List.take_succ_cons, List.foldlM_cons, first, enough]
  rfl

theorem fill_flag (lacks : f.due = argument :: due) (flags : f.plain = false)
    (flag : isFlag f.due word = true) (other : word ≠ "--") :
    f.fill verb (word :: rest) = .error (.usage verb) := by
  have first : take verb f word = .error (.usage verb) := by simp [take, flags, flag, other]
  simp only [fill, lacks, List.length_cons, List.take_succ_cons, List.foldlM_cons, first]
  rfl

theorem fill_value (lacks : f.due = argument :: due)
    (value : f.plain = true ∨ isFlag f.due word = false) :
    f.fill verb (word :: rest) = f.settle >>= fun values =>
      fill verb ⟨f.plain, some (argument, word), due, values⟩ rest := by
  have other : f.plain = false → word ≠ "--" := by
    rintro flags rfl
    rcases value with plain | value
    · simp [flags] at plain
    · simp [isFlag] at value
  have first : take verb f word = f.settle >>= fun values =>
      .ok ⟨f.plain, some (argument, word), due, values⟩ := by
    cases plain : f.plain with
    | true => simp [take, lacks, plain]; rfl
    | false =>
      have short : isFlag f.due word = false := by simpa [plain] using value
      rw [lacks] at short
      simp [take, lacks, plain, other plain, short]
      rfl
  simp only [fill, lacks, List.length_cons, List.take_succ_cons, List.foldlM_cons, first]
  cases f.settle <;> rfl

/-! ## Success -/

/-- Too few words never fill the arguments. -/
theorem fill_ne_ok (short : rest.length < f.due.length) : f.fill verb rest ≠ .ok values := by
  induction rest generalizing f with
  | nil =>
    cases lacks : f.due with
    | nil => simp [lacks] at short
    | cons argument due =>
      rw [fill_nil lacks]
      cases f.settle <;> intro h <;> cases h
  | cons word rest ih =>
    cases lacks : f.due with
    | nil => simp [lacks] at short
    | cons argument due =>
      have fewer : rest.length < due.length := by simpa [lacks] using short
      have later (plain : Bool) (values' : List Value) :
          fill verb ⟨plain, some (argument, word), due, values'⟩ rest ≠ .ok values := ih fewer
      by_cases value : f.plain = true ∨ isFlag f.due word = false
      · rw [fill_value lacks value]
        cases f.settle with
        | error error => intro h; cases h
        | ok values' => exact later f.plain values'
      · rw [not_or, Bool.not_eq_true, Bool.not_eq_false] at value
        obtain ⟨flags, flag⟩ := value
        by_cases escape : word = "--"
        · subst escape
          rw [fill_escape lacks flags, List.take_of_length_le fewer.le]
          exact ih (by simpa [lacks] using Nat.lt_succ_of_lt fewer)
        · rw [fill_flag lacks flags flag escape]
          intro h
          cases h

theorem fill_flag_ne_ok (lacks : f.due = argument :: due) (flags : f.plain = false)
    (flag : isFlag f.due word = true) : f.fill verb (word :: rest) ≠ .ok values := by
  by_cases escape : word = "--"
  · rw [escape, fill_escape lacks flags]
    exact fill_ne_ok (by simp [lacks])
  · rw [fill_flag lacks flags flag escape]
    nofun

/-- Words are taken with success if and only if they fill the arguments and the pending value is
good. -/
theorem fill_eq_ok_iff (flags : f.plain = false) : f.fill verb rest = .ok values ↔
    ∃ past further, f.settle = .ok past ∧ Fill f.due rest further ∧ values = past ++ further := by
  obtain ⟨due, lacks⟩ : ∃ due, f.due = due := ⟨_, rfl⟩
  induction due generalizing f rest with
  | nil =>
    rw [fill_of_full lacks, lacks]
    simp
  | cons argument due ih =>
    cases rest with
    | nil =>
      have short : f.fill verb [] ≠ .ok values := fill_ne_ok (by simp [lacks])
      simp [lacks, short]
    | cons word rest =>
      cases flag : isFlag (argument :: due) word with
      | true =>
        have fails : f.fill verb (word :: rest) ≠ .ok values :=
          fill_flag_ne_ok lacks flags (by rw [lacks, flag])
        simp [lacks, fails, fill_cons_iff, suits_iff due, flag]
      | false =>
        rw [fill_value lacks (.inr (by rw [lacks, flag])), lacks]
        cases settled : f.settle with
        | error error => simp [Bind.bind, Except.bind]
        | ok past =>
          apply (ih (f := ⟨f.plain, some (argument, word), due, past⟩) flags rfl).trans
          simp only [settle_pending_eq_ok_iff, fill_cons_iff, suits_iff due, flag]
          constructor
          · rintro ⟨_, further, ⟨value, found, rfl⟩, filled, rfl⟩
            exact ⟨past, value :: further, rfl, ⟨value, further, ⟨trivial, found⟩, filled, rfl⟩,
              by simp⟩
          · rintro ⟨_, _, ⟨⟩, ⟨value, further, ⟨-, found⟩, filled, rfl⟩, rfl⟩
            exact ⟨past ++ [value], further, ⟨value, found, rfl⟩, filled, by simp⟩

/-! ## Failure -/

theorem take_eq_error (h : take verb f word = .error error) :
    error = .badArguments ∨ error = .usage verb := by
  unfold take at h
  split at h
  · cases h
  · split at h
    · cases h
      exact .inr rfl
    · split at h
      · cases h
        exact .inr rfl
      · cases settled : f.settle with
        | error bad =>
          rw [settled] at h
          cases h
          exact .inl (settle_eq_error settled)
        | ok values =>
          rw [settled] at h
          cases h

theorem finish_eq_error (h : f.finish verb = .error error) :
    error = .badArguments ∨ error = .usage verb := by
  unfold finish at h
  cases settled : f.settle with
  | error bad =>
    rw [settled] at h
    cases h
    exact .inl (settle_eq_error settled)
  | ok values =>
    rw [settled] at h
    change (if f.due = [] then _ else _) = _ at h
    split at h <;> cases h
    exact .inr rfl

/-- There are two errors, and the usage is that of the verb. -/
theorem fill_eq_error (h : f.fill verb rest = .error error) :
    error = .badArguments ∨ error = .usage verb := by
  unfold fill at h
  generalize rest.take f.due.length = words at h
  induction words generalizing f with
  | nil => exact finish_eq_error h
  | cons word words ih =>
    rw [List.foldlM_cons, bind_assoc] at h
    cases taken : take verb f word with
    | error bad =>
      rw [taken] at h
      cases h
      exact take_eq_error taken
    | ok next =>
      rw [taken] at h
      exact ih h

/-- The command is used wrongly if a word begins with a dash, or if there are too few words and no
bad value among them. -/
theorem usage_of_fill {other : Verb} (flags : f.plain = false)
    (h : f.fill verb rest = .error (.usage other)) :
    (∃ x ∈ f.due.zip rest, x.2.toList.head? = some '-') ∨
      rest.length < f.due.length ∧ (∃ values, f.settle = .ok values) ∧
        ∀ bits word, (.integer bits, word) ∈ f.due.zip rest → ∃ n, Integer.Written bits word n := by
  obtain ⟨due, lacks⟩ : ∃ due, f.due = due := ⟨_, rfl⟩
  induction due generalizing f rest with
  | nil =>
    rw [fill_of_full lacks] at h
    cases settle_eq_error h
  | cons argument due ih =>
    rw [lacks]
    cases rest with
    | nil =>
      rw [fill_nil lacks] at h
      cases settled : f.settle with
      | error bad =>
        rw [settled] at h
        cases h
        cases settle_eq_error settled
      | ok values => exact .inr ⟨by simp, ⟨values, rfl⟩, by simp⟩
    | cons word rest =>
      cases flag : isFlag f.due word with
      | true => exact .inl ⟨(argument, word), by simp, head?_of_isFlag flag⟩
      | false =>
        rw [fill_value lacks (.inr flag)] at h
        cases settled : f.settle with
        | error bad =>
          rw [settled] at h
          cases h
          cases settle_eq_error settled
        | ok values =>
          rw [settled] at h
          obtain ⟨x, hx, dash⟩ | ⟨short, ⟨looked, good⟩, integers⟩ :=
            ih (f := ⟨f.plain, some (argument, word), due, values⟩) flags h rfl
          · exact .inl ⟨x, List.mem_cons_of_mem _ hx, dash⟩
          · obtain ⟨value, found, -⟩ := settle_pending_eq_ok_iff.mp good
            refine .inr ⟨by simpa using short, ⟨values, rfl⟩, fun bits other hother => ?_⟩
            rw [List.zip_cons_cons, List.mem_cons] at hother
            obtain own | hother := hother
            · cases own
              by_contra bad
              have failed : Value.ofWord? (.integer bits) word = none :=
                ofWord?_eq_none_iff.mpr ⟨bits, rfl, not_exists.mp bad⟩
              rw [failed] at found
              cases found
            · exact integers bits other hother

/-- A value is bad if a word is no integer that stands where an integer is due. -/
theorem badArguments_of_fill (flags : f.plain = false) (last : ∀ a ∈ f.due.dropLast, a ≠ .word)
    (h : f.fill verb rest = .error .badArguments) :
    f.settle = .error .badArguments ∨
      ∃ bits word, (.integer bits, word) ∈ f.due.zip rest ∧
        ∀ n, ¬ Integer.Written bits word n := by
  obtain ⟨due, lacks⟩ : ∃ due, f.due = due := ⟨_, rfl⟩
  induction due generalizing f rest with
  | nil =>
    rw [fill_of_full lacks] at h
    exact .inl h
  | cons argument due ih =>
    rw [lacks] at last ⊢
    cases rest with
    | nil =>
      rw [fill_nil lacks] at h
      cases settled : f.settle with
      | error bad => exact .inl (by rw [settle_eq_error settled])
      | ok values =>
        rw [settled] at h
        cases h
    | cons word rest =>
      cases flag : isFlag f.due word with
      | true =>
        by_cases escape : word = "--"
        · cases argument with
          | integer bits =>
            refine .inr ⟨bits, word, by simp, fun n written => ?_⟩
            rw [lacks, isFlag_of_written written] at flag
            cases flag
          | word =>
            -- The last argument is the only one that is no integer, so no words are left.
            obtain rfl : due = [] := by
              cases due with
              | nil => rfl
              | cons other due => exact absurd rfl (last .word List.mem_cons_self)
            rw [escape, fill_escape lacks flags, List.length_nil, List.take_zero,
              fill_nil (f := { f with plain := true }) lacks, settle_plain] at h
            cases settled : f.settle with
            | error bad => exact .inl (by rw [settle_eq_error settled])
            | ok values =>
              rw [settled] at h
              cases h
        · rw [fill_flag lacks flags flag escape] at h
          cases h
      | false =>
        rw [fill_value lacks (.inr flag)] at h
        cases settled : f.settle with
        | error bad => exact .inl (by rw [settle_eq_error settled])
        | ok values =>
          rw [settled] at h
          right
          have later : ∀ a ∈ due.dropLast, a ≠ .word := by
            intro a ha
            cases due with
            | nil => cases ha
            | cons other due => exact last a (List.mem_cons_of_mem _ ha)
          obtain pending | ⟨bits, other, hother, bad⟩ :=
            ih (f := ⟨f.plain, some (argument, word), due, values⟩) flags later h rfl
          · cases found : Value.ofWord? argument word with
            | none =>
              obtain ⟨bits, rfl, bad⟩ := ofWord?_eq_none_iff.mp found
              exact ⟨bits, word, by simp, bad⟩
            | some value =>
              rw [settle_pending_eq_ok_iff.mpr ⟨value, found, rfl⟩] at pending
              cases pending
          · exact ⟨bits, other, List.mem_cons_of_mem _ hother, bad⟩

end Filling

end Command

end Timeshare
