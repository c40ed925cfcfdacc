import Mathlib
import Timeshare.Proofs.Text.Lines
import Timeshare.Text.Json

/-!
# JSON read back

A reader for the compact spelling of JSON values. A value shows by its first character what it is,
and where a number ends shows by the character behind it, so a value is read back whatever text
follows it, unless that text goes on with a digit or a dash (`value?_chars`). Strings come back
whatever is in them, since every character is spelled in a way of its own (`escape_cases`). No
spelling has a control character in it, so a value never breaks a line (`oneLine_text`).
-/

namespace Timeshare

namespace Json

/-- Takes something off the front of a text. -/
abbrev Reader (α : Type) := List Char → Option (α × List Char)

/-! ## Strings -/

/-- The value of a hexadecimal digit. -/
def hexValue? (c : Char) : Option Nat := (List.range 16).find? fun d => Nat.digitChar d = c

/-- The code point that hexadecimal digits stand for. -/
def codePoint? (digits : List Char) : Option Nat :=
  digits.foldlM (fun code c => (hexValue? c).map (16 * code + ·)) 0

/-- What a letter behind a backslash stands for. -/
def shortEscape? : Char → Option Char
  | '"' => some '"'
  | '\\' => some '\\'
  | 'b' => some '\x08'
  | 'f' => some '\x0c'
  | 'n' => some '\n'
  | 'r' => some '\r'
  | 't' => some '\t'
  | _ => none

/-- Reads the rest of a string and its closing quote. -/
def string? : Reader (List Char)
  | [] => none
  | '"' :: rest => some ([], rest)
  | '\\' :: 'u' :: a :: b :: c :: d :: rest => do
    let code ← codePoint? [a, b, c, d]
    let (cs, rest) ← string? rest
    return (Char.ofNat code :: cs, rest)
  | '\\' :: letter :: rest => do
    let c ← shortEscape? letter
    let (cs, rest) ← string? rest
    return (c :: cs, rest)
  | c :: rest => do
    let (cs, rest) ← string? rest
    return (c :: cs, rest)

theorem hexValue?_digitChar : ∀ d < 16, hexValue? (Nat.digitChar d) = some d := by decide

theorem codePoint?_digits {n : Nat} (h : n < 32) :
    codePoint? ['0', '0', Nat.digitChar (n / 16), Nat.digitChar (n % 16)] = some n := by
  have zero : hexValue? '0' = some 0 := hexValue?_digitChar 0 (by decide)
  have high := hexValue?_digitChar (n / 16) (by omega)
  have low := hexValue?_digitChar (n % 16) (by omega)
  simp only [codePoint?, List.foldlM_cons, List.foldlM_nil, zero, high, low, Option.map_some,
    Option.bind_eq_bind, Option.bind_some, Option.pure_def, Option.some.injEq]
  omega

/-- A character is spelled by a letter behind a backslash, by its code point or by itself. -/
theorem escape_cases (c : Char) :
    (∃ letter, escape c = ['\\', letter] ∧ shortEscape? letter = some c ∧ letter ≠ 'u') ∨
    (escape c = ['\\', 'u', '0', '0', Nat.digitChar (c.toNat / 16), Nat.digitChar (c.toNat % 16)] ∧
      c.toNat < 32) ∨
    (escape c = [c] ∧ c ≠ '"' ∧ c ≠ '\\' ∧ 32 ≤ c.toNat) := by
  have short (d letter : Char) (h : shortEscape? letter = some d) (other : letter ≠ 'u')
      (spelled : escape d = ['\\', letter]) (same : c = d) :
      ∃ letter, escape c = ['\\', letter] ∧ shortEscape? letter = some c ∧ letter ≠ 'u' := by
    subst same
    exact ⟨letter, spelled, h, other⟩
  by_cases quote : c = '"'
  · exact .inl (short '"' '"' rfl (by decide) rfl quote)
  by_cases backslash : c = '\\'
  · exact .inl (short '\\' '\\' rfl (by decide) rfl backslash)
  by_cases backspace : c = '\x08'
  · exact .inl (short '\x08' 'b' rfl (by decide) rfl backspace)
  by_cases formFeed : c = '\x0c'
  · exact .inl (short '\x0c' 'f' rfl (by decide) rfl formFeed)
  by_cases lineFeed : c = '\n'
  · exact .inl (short '\n' 'n' rfl (by decide) rfl lineFeed)
  by_cases carriageReturn : c = '\r'
  · exact .inl (short '\r' 'r' rfl (by decide) rfl carriageReturn)
  by_cases tab : c = '\t'
  · exact .inl (short '\t' 't' rfl (by decide) rfl tab)
  rw [escape, if_neg quote, if_neg backslash, if_neg backspace, if_neg formFeed, if_neg lineFeed,
    if_neg carriageReturn, if_neg tab]
  by_cases control : c.toNat < 32
  · rw [if_pos control]
    exact .inr (.inl ⟨rfl, control⟩)
  · rw [if_neg control]
    exact .inr (.inr ⟨rfl, quote, backslash, Nat.not_lt.mp control⟩)

/-- A character is read back from its spelling. -/
theorem string?_escape (c : Char) (rest : List Char) :
    string? (escape c ++ rest) = (string? rest).map fun (cs, rest) => (c :: cs, rest) := by
  have read : ((string? rest).bind fun (cs, rest) => some (c :: cs, rest)) =
      (string? rest).map fun (cs, rest) => (c :: cs, rest) := Option.map_eq_bind.symm
  rcases escape_cases c with ⟨letter, spelled, stands, other⟩ | ⟨spelled, control⟩ |
    ⟨spelled, quote, backslash, -⟩
  · rw [spelled, List.cons_append, List.singleton_append, string?, stands]
    · exact read
    · rintro a b c d rest rfl
      exact absurd rfl other
  · rw [spelled]
    simp only [List.cons_append, List.nil_append, string?, codePoint?_digits control,
      Char.ofNat_toNat, Option.bind_eq_bind, Option.bind_some]
    exact read
  · rw [spelled, List.singleton_append, string?]
    · exact read
    all_goals simp_all

theorem string?_flatMap_escape (cs rest : List Char) :
    string? (cs.flatMap escape ++ '"' :: rest) = some (cs, rest) := by
  induction cs with
  | nil => rfl
  | cons c cs ih => rw [List.flatMap_cons, List.append_assoc, string?_escape, ih, Option.map_some]

/-! ## Numbers -/

/-- A digit or a dash. -/
def isNumeric (c : Char) : Bool := c.isDigit || c = '-'

/-- Nothing in a text goes on with a number that stands before it. -/
def Stops (rest : List Char) : Prop := ∀ c ∈ rest.head?, isNumeric c = false

def number? : Reader Int := fun cs =>
  (Integer.read? (String.ofList (cs.takeWhile isNumeric))).map fun n => (n, cs.dropWhile isNumeric)

theorem isNumeric_toString (n : Int) : ∀ c ∈ (toString n).toList, isNumeric c = true := by
  intro c h
  by_contra other
  simp only [isNumeric, Bool.or_eq_true, decide_eq_true_eq, not_or, Bool.not_eq_true] at other
  exact Integer.not_mem_toString other.1 other.2 n h

theorem number?_toString (n : Int) {rest : List Char} (stops : Stops rest) :
    number? ((toString n).toList ++ rest) = some (n, rest) := by
  have all := isNumeric_toString n
  have taken : rest.takeWhile isNumeric = [] := by cases rest <;> simp_all [Stops]
  have left : rest.dropWhile isNumeric = rest := by cases rest <;> simp_all [Stops]
  rw [number?, List.takeWhile_append_of_pos all, List.dropWhile_append_of_pos all, taken, left,
    List.append_nil, String.ofList_toList, Integer.read?_toString, Option.map_some]

/-! ## Values -/

/-- Reads one thing or more, with commas between them, and the character that closes them. -/
def separated? {α : Type} (item : Reader α) (close : Char) : Nat → Reader (List α)
  | 0, _ => none
  | limit + 1, cs => do
    let (a, rest) ← item cs
    match rest with
    | [] => none
    | c :: rest =>
      if c = ',' then do
        let (others, rest) ← separated? item close limit rest
        return (a :: others, rest)
      else if c = close then return ([a], rest)
      else none

/-- Reads a key with its value. -/
def field? (value : Reader Json) : Reader (String × Json)
  | '"' :: cs => do
    let (key, rest) ← string? cs
    match rest with
    | ':' :: rest => do
      let (j, rest) ← value rest
      return ((String.ofList key, j), rest)
    | _ => none
  | _ => none

/-- Reads a value of at most so many levels. -/
def value? : Nat → Reader Json
  | 0, _ => none
  | depth + 1, cs =>
    match cs with
    | 'n' :: 'u' :: 'l' :: 'l' :: rest => some (null, rest)
    | 't' :: 'r' :: 'u' :: 'e' :: rest => some (bool true, rest)
    | 'f' :: 'a' :: 'l' :: 's' :: 'e' :: rest => some (bool false, rest)
    | '"' :: rest => (string? rest).map fun (cs, rest) => (string (String.ofList cs), rest)
    | '[' :: ']' :: rest => some (array [], rest)
    | '[' :: rest =>
      (separated? (value? depth) ']' rest.length rest).map fun (items, rest) => (array items, rest)
    | '\x7b' :: '\x7d' :: rest => some (object [], rest)
    | '\x7b' :: rest =>
      (separated? (field? (value? depth)) '\x7d' rest.length rest).map fun (fields, rest) =>
        (object fields, rest)
    | cs => (number? cs).map fun (n, rest) => (number n, rest)

/-- The value that a text spells, and no more than that. -/
def ofText? (text : String) : Option Json :=
  match value? text.toList.length text.toList with
  | some (j, []) => some j
  | _ => none

/-! ### Lists between brackets -/

section

variable {α : Type} (spell : α → List Char) {xs : List α}

theorem length_le_of_mem {x : α} (h : x ∈ xs) :
    (spell x).length ≤ ([','].intercalate (xs.map spell)).length := by
  induction xs with
  | nil => cases h
  | cons y ys ih =>
    cases ys with
    | nil => simp_all
    | cons z zs =>
      simp only [List.map_cons, List.intercalate_cons_cons, List.length_append] at ih ⊢
      rcases List.mem_cons.mp h with rfl | later
      · omega
      · have := ih later
        omega

/-- There is a comma for each thing but one. -/
theorem length_le_intercalate (xs : List α) :
    xs.length ≤ ([','].intercalate (xs.map spell)).length + 1 := by
  induction xs with
  | nil => exact Nat.zero_le _
  | cons y ys ih =>
    cases ys with
    | nil => exact Nat.succ_le_succ (Nat.zero_le _)
    | cons z zs =>
      simp only [List.map_cons, List.intercalate_cons_cons, List.length_append,
        List.length_cons, List.length_nil] at ih ⊢
      omega

/-- The first thing comes first, and behind it a comma or what closes the list. -/
theorem exists_behind (x : α) (xs : List α) (close : Char) (rest : List Char) :
    ∃ c later, (c = ',' ∨ c = close) ∧
      [','].intercalate ((x :: xs).map spell) ++ close :: rest = spell x ++ c :: later := by
  cases xs with
  | nil => exact ⟨close, rest, .inr rfl, by simp⟩
  | cons y ys => exact ⟨',', _, .inl rfl, by simp [List.intercalate_cons_cons]; rfl⟩

theorem separated?_intercalate {item : Reader α} {close : Char} (other : close ≠ ',')
    (filled : xs ≠ [])
    (each : ∀ x ∈ xs, ∀ c rest, c = ',' ∨ c = close →
      item (spell x ++ c :: rest) = some (x, c :: rest))
    {limit : Nat} (enough : xs.length ≤ limit) (rest : List Char) :
    separated? item close limit ([','].intercalate (xs.map spell) ++ close :: rest) =
      some (xs, rest) := by
  induction xs generalizing limit with
  | nil => exact absurd rfl filled
  | cons x xs ih =>
    obtain ⟨first, later⟩ := List.forall_mem_cons.mp each
    obtain ⟨limit, rfl⟩ := Nat.exists_eq_add_of_le' (Nat.lt_of_lt_of_le (Nat.succ_pos _) enough)
    cases xs with
    | nil =>
      rw [List.map_singleton, List.intercalate_singleton, separated?,
        first close rest (.inr rfl)]
      simp [other]
    | cons y ys =>
      have remaining := ih (by simp) later (Nat.le_of_succ_le_succ enough)
      rw [List.map_cons] at remaining
      rw [List.map_cons, List.map_cons, List.intercalate_cons_cons, List.append_assoc,
        List.append_assoc, List.singleton_append, separated?, first ',' _ (.inl rfl)]
      simp [remaining]

/-- There are no more things than characters. -/
theorem separated?_length {item : Reader α} {close : Char} (other : close ≠ ',')
    (filled : xs ≠ [])
    (each : ∀ x ∈ xs, ∀ c rest, c = ',' ∨ c = close →
      item (spell x ++ c :: rest) = some (x, c :: rest)) (rest : List Char) :
    separated? item close ([','].intercalate (xs.map spell) ++ close :: rest).length
      ([','].intercalate (xs.map spell) ++ close :: rest) = some (xs, rest) := by
  refine separated?_intercalate spell other filled each ?_ rest
  have := length_le_intercalate spell xs
  rw [List.length_append, List.length_cons]
  omega

end

/-- A key with its value as they are spelled. -/
def spellField (field : String × Json) : List Char := quote field.1 ++ ':' :: chars field.2

theorem itemChars_eq (items : List Json) :
    itemChars items = [','].intercalate (items.map chars) := by
  induction items with
  | nil => rfl
  | cons item items ih =>
    cases items with
    | nil => simp [itemChars]
    | cons second items =>
      rw [List.map_cons] at ih
      rw [itemChars, ih, List.map_cons, List.map_cons, List.intercalate_cons_cons,
        List.append_assoc, List.singleton_append]
      simp

theorem fieldChars_eq (fields : List (String × Json)) :
    fieldChars fields = [','].intercalate (fields.map spellField) := by
  induction fields with
  | nil => rfl
  | cons field fields ih =>
    cases fields with
    | nil => simp [fieldChars, spellField]
    | cons second fields =>
      rw [List.map_cons] at ih
      rw [fieldChars, ih, List.map_cons, List.map_cons, List.intercalate_cons_cons,
        List.append_assoc, List.singleton_append]
      · simp [spellField]
      · simp

theorem field?_spellField {value : Reader Json} {field : String × Json} {rest : List Char}
    (h : value (chars field.2 ++ rest) = some (field.2, rest)) :
    field? value (spellField field ++ rest) = some (field, rest) := by
  have spelled : spellField field ++ rest =
      '"' :: (field.1.toList.flatMap escape ++ '"' :: ':' :: (chars field.2 ++ rest)) := by
    simp [spellField, quote]
  rw [spelled, field?, string?_flatMap_escape]
  simp [h]

/-! ### Any value -/

theorem length_chars_pos (j : Json) : 0 < (chars j).length := by
  cases j with
  | null => decide
  | bool b => cases b <;> decide
  | number n =>
    rw [chars]
    cases n with
    | ofNat n => exact List.length_pos_iff.mpr (Integer.numeral_toString n).ne_nil
    | negSucc n =>
      rw [Integer.toList_toString_negSucc]
      exact Nat.succ_pos _
  | string | array | object => simp [chars, quote]

theorem stops_cons {c : Char} (h : isNumeric c = false) (rest : List Char) : Stops (c :: rest) := by
  simpa [Stops] using h

/-- A bracket does not begin a value. -/
theorem value?_close (depth : Nat) (rest : List Char) : value? depth (']' :: rest) = none := by
  cases depth with
  | zero => rfl
  | succ depth =>
    simp only [value?, number?]
    rfl

/-- A number is not taken for anything else. -/
theorem value?_number (depth : Nat) (n : Int) {rest : List Char} (stops : Stops rest) :
    value? (depth + 1) ((toString n).toList ++ rest) = some (number n, rest) := by
  have read := number?_toString n stops
  have filled := length_chars_pos (number n)
  have numeric := isNumeric_toString n
  rw [chars] at filled
  revert read filled numeric
  generalize (toString n).toList = cs
  intro read filled numeric
  obtain ⟨c, cs, rfl⟩ := List.exists_cons_of_length_pos filled
  have first := numeric c List.mem_cons_self
  rw [List.cons_append] at read ⊢
  rw [value?]
  · rw [read, Option.map_some]
  all_goals
    rintro rest same
    rw [(List.cons.inj same).1] at first
    exact absurd first (by decide)

/-- A value is read back, whatever comes behind it. -/
theorem value?_chars {depth : Nat} {j : Json} (enough : (chars j).length ≤ depth)
    {rest : List Char} (stops : Stops rest) : value? depth (chars j ++ rest) = some (j, rest) := by
  induction depth generalizing j rest with
  | zero => exact absurd (length_chars_pos j) (Nat.not_lt.mpr enough)
  | succ depth ih =>
    cases j with
    | null => rfl
    | bool b => cases b <;> rfl
    | number n => exact value?_number depth n stops
    | string s =>
      have spelled : chars (string s) ++ rest =
          '"' :: (s.toList.flatMap escape ++ '"' :: rest) := by
        simp [chars, quote]
      rw [spelled, value?, string?_flatMap_escape]
      simp
    | array items =>
      rw [chars, List.length_cons, List.length_append, List.length_singleton, itemChars_eq]
        at enough
      have each : ∀ item ∈ items, ∀ c rest, c = ',' ∨ c = ']' →
          value? depth (chars item ++ c :: rest) = some (item, c :: rest) := by
        intro item h c rest behind
        have := length_le_of_mem chars h
        refine ih (by omega) (stops_cons ?_ rest)
        rcases behind with rfl | rfl <;> decide
      have spelled : chars (array items) ++ rest =
          '[' :: ([','].intercalate (items.map chars) ++ ']' :: rest) := by
        simp [chars, itemChars_eq]
      cases items with
      | nil => rfl
      | cons item items =>
        rw [spelled, value?, separated?_length chars (by decide) (by simp) each, Option.map_some]
        -- What is read between the brackets begins with a value, and no bracket does.
        intro later bracket
        obtain ⟨c, behind, ends, same⟩ := exists_behind chars item items ']' rest
        have first := each item List.mem_cons_self c behind ends
        rw [← same, bracket, value?_close] at first
        cases first
    | object fields =>
      rw [chars, List.length_cons, List.length_append, List.length_singleton, fieldChars_eq]
        at enough
      have each : ∀ field ∈ fields, ∀ c rest, c = ',' ∨ c = '\x7d' →
          field? (value? depth) (spellField field ++ c :: rest) = some (field, c :: rest) := by
        intro field h c rest behind
        have := length_le_of_mem spellField h
        rw [spellField, List.length_append, List.length_cons] at this
        refine field?_spellField (ih (by omega) (stops_cons ?_ rest))
        rcases behind with rfl | rfl <;> decide
      have spelled : chars (object fields) ++ rest =
          '\x7b' :: ([','].intercalate (fields.map spellField) ++ '\x7d' :: rest) := by
        simp [chars, fieldChars_eq]
      cases fields with
      | nil => rfl
      | cons field fields =>
        rw [spelled, value?, separated?_length spellField (by decide) (by simp) each,
          Option.map_some]
        intro later brace
        obtain ⟨c, behind, -, same⟩ := exists_behind spellField field fields '\x7d' rest
        rw [same] at brace
        cases brace

theorem ofText?_text (j : Json) : ofText? j.text = some j := by
  have stops : Stops [] := by simp [Stops]
  have read := value?_chars (Nat.le_refl j.chars.length) stops
  rw [List.append_nil] at read
  simp [ofText?, text, read]

/-! ## One line -/

/-- No character of some text is a control character. -/
def Plain (cs : List Char) : Prop := ∀ c ∈ cs, 32 ≤ c.toNat

instance (cs : List Char) : Decidable (Plain cs) :=
  List.decidableBAll (fun c : Char => 32 ≤ c.toNat) cs

theorem plain_cons {c : Char} {cs : List Char} : Plain (c :: cs) ↔ 32 ≤ c.toNat ∧ Plain cs :=
  List.forall_mem_cons

theorem plain_append {a b : List Char} : Plain (a ++ b) ↔ Plain a ∧ Plain b :=
  List.forall_mem_append

theorem plain_escape (c : Char) : Plain (escape c) := by
  have digit : ∀ d < 16, 32 ≤ (Nat.digitChar d).toNat := by decide
  rcases escape_cases c with ⟨letter, spelled, stands, -⟩ | ⟨spelled, control⟩ | ⟨spelled, -, -, h⟩
  · rw [spelled]
    rw [shortEscape?.eq_def] at stands
    split at stands
    case h_8 => cases stands
    all_goals decide
  · have high := digit (c.toNat / 16) (by omega)
    have low := digit (c.toNat % 16) (by omega)
    rw [spelled]
    simp [Plain, high, low]
  · rw [spelled]
    simpa [Plain] using h

theorem plain_quote (s : String) : Plain (quote s) := by
  have inside : Plain (s.toList.flatMap escape) := fun c h => by
    obtain ⟨d, -, spelled⟩ := List.mem_flatMap.mp h
    exact plain_escape d c spelled
  rw [quote, List.cons_append, plain_cons, plain_append]
  exact ⟨by decide, inside, by decide⟩

theorem plain_toString (n : Int) : Plain (toString n).toList := by
  intro c h
  have numeric := isNumeric_toString n c h
  rw [isNumeric, Bool.or_eq_true, decide_eq_true_eq] at numeric
  rcases numeric with digit | rfl
  · have := (Char.isDigit_iff_toNat.mp digit).1
    have zero : '0'.toNat = 48 := rfl
    omega
  · decide

mutual

theorem plain_chars : ∀ j : Json, Plain (chars j)
  | null => by decide
  | bool true => by decide
  | bool false => by decide
  | number n => by
    rw [chars]
    exact plain_toString n
  | string s => by
    rw [chars]
    exact plain_quote s
  | array items => by
    rw [chars, plain_cons, plain_append]
    exact ⟨by decide, plain_itemChars items, by decide⟩
  | object fields => by
    rw [chars, plain_cons, plain_append]
    exact ⟨by decide, plain_fieldChars fields, by decide⟩

theorem plain_itemChars : ∀ items : List Json, Plain (itemChars items)
  | [] => by decide
  | [item] => by
    rw [itemChars]
    exact plain_chars item
  | item :: second :: items => by
    rw [itemChars, plain_append, plain_cons]
    · exact ⟨plain_chars item, by decide, plain_itemChars (second :: items)⟩
    · simp

theorem plain_fieldChars : ∀ fields : List (String × Json), Plain (fieldChars fields)
  | [] => by decide
  | [(key, value)] => by
    rw [fieldChars, plain_append, plain_cons]
    exact ⟨plain_quote key, by decide, plain_chars value⟩
  | (key, value) :: second :: fields => by
    rw [fieldChars, plain_append, plain_cons, plain_append, plain_cons]
    · exact ⟨plain_quote key, by decide, plain_chars value, by decide,
        plain_fieldChars (second :: fields)⟩
    · simp

end

theorem oneLine_text (j : Json) : OneLine j.text := by
  rw [OneLine, text, String.toList_ofList]
  exact fun h => absurd (plain_chars j '\n' h) (by decide)

end Json

end Timeshare
