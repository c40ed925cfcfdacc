import Mathlib
import Timeshare.Proofs.Text.Integer
import Timeshare.Text.Lines

/-!
# Lines one after another

Bytes that end at the end of a line have lines of their own, whatever comes behind them
(`ofBytes_append`). A carriage return is a character by itself, so leaving it out does not make text
of what is none (`text?_trim_eq_none_iff`). The bytes of a text without a line feed are one line, and
that line is the text again (`ofBytes_ofText_append`, `text?_trim_ofText`).
-/

namespace Timeshare

/-- A text without a line feed. -/
def OneLine (text : String) : Prop := '\n' ∉ text.toList

instance (text : String) : Decidable (OneLine text) :=
  inferInstanceAs (Decidable ('\n' ∉ text.toList))

theorem oneLine_append {first second : String} :
    OneLine (first ++ second) ↔ OneLine first ∧ OneLine second := by
  rw [OneLine, String.toList_append, List.mem_append, not_or]
  rfl

theorem oneLine_number (n : Int) : OneLine (toString n) :=
  Integer.not_mem_toString (by decide) (by decide) n

theorem oneLine_count (n : Nat) : OneLine (toString n) := oneLine_number n

namespace Lines

variable {a line rest : List UInt8}

/-- There are no bytes or the last one is a line feed. -/
def Whole (bytes : List UInt8) : Prop := bytes = [] ∨ bytes.getLast? = some 10

instance (bytes : List UInt8) : Decidable (Whole bytes) :=
  inferInstanceAs (Decidable (_ ∨ _))

/-! ## Lines of two parts -/

@[simp] theorem ofBytes_nil : ofBytes [] = [] := rfl

theorem complete_append_cons (a b : List UInt8) :
    complete (a ++ 10 :: b) = ((a.splitOn 10).map trim ++ (complete b).1, (complete b).2) := by
  have later := List.splitOn_ne_nil 10 b
  simp only [complete]
  rw [List.splitOn_append_cons_self, List.dropLast_append_of_ne_nil later,
    List.getLast?_append_of_ne_nil _ later, List.map_append]

/-- A line feed parts the lines before it from those behind it. -/
theorem ofBytes_append_cons (a b : List UInt8) :
    ofBytes (a ++ 10 :: b) = (a.splitOn 10).map trim ++ ofBytes b := by
  simp only [ofBytes, complete_append_cons, List.append_assoc]

theorem ofBytes_append (whole : Whole a) (b : List UInt8) :
    ofBytes (a ++ b) = ofBytes a ++ ofBytes b := by
  rcases whole with rfl | ends
  · rfl
  · obtain ⟨before, rfl⟩ := List.getLast?_eq_some_iff.mp ends
    rw [List.append_assoc, List.singleton_append, ofBytes_append_cons, ofBytes_append_cons,
      ofBytes_nil, List.append_nil]

/-- Bytes without a line feed are a line if a line feed or nothing comes behind them. -/
theorem ofBytes_of_line (filled : line ≠ []) (single : 10 ∉ line)
    (stops : ∀ c ∈ rest.head?, c = 10) :
    ∃ first later, ofBytes (line ++ rest) = first :: later ∧
      (first = line ∨ first = trim line) := by
  have alone : line.splitOn 10 = [line] := List.splitOn_eq_singleton single
  cases rest with
  | nil =>
    refine ⟨line, [], ?_, .inl rfl⟩
    simp [ofBytes, complete, alone, filled]
  | cons c rest =>
    obtain rfl : c = 10 := stops c rfl
    refine ⟨trim line, ofBytes rest, ?_, .inr rfl⟩
    rw [ofBytes_append_cons, alone, List.map_singleton, List.singleton_append]

/-! ## Lines that are no text -/

/-- Bytes are text if they are characters spelled one after another. -/
theorem isSome_text?_iff :
    (text? line).isSome = true ↔
      ∃ chars : List Char, line = chars.flatMap String.utf8EncodeChar := by
  have same : (⟨line.toArray⟩ : ByteArray) = line.toByteArray := by simp [ByteArray.ext_iff]
  have spelled : line.toByteArray.IsValidUTF8 ↔
      ∃ chars : List Char, line = chars.flatMap String.utf8EncodeChar := by
    constructor
    · rintro ⟨chars, h⟩
      exact ⟨chars, List.toByteArray_inj.mp h⟩
    · rintro ⟨chars, rfl⟩
      exact ⟨chars, rfl⟩
  rw [text?, String.fromUTF8?, same, ← spelled]
  split <;> simp_all

/-- A byte that a character may begin with does not end a longer one. -/
theorem eq_nil_of_utf8EncodeChar {c : Char} {byte : UInt8} (low : byte.IsUTF8FirstByte)
    (spelled : String.utf8EncodeChar c = line ++ [byte]) : line = [] := by
  have inside : line.length < (String.utf8EncodeChar c).length := by simp [spelled]
  have last : (String.utf8EncodeChar c)[line.length] = byte := by simp [spelled]
  rw [← last, UInt8.isUTF8FirstByte_getElem_utf8EncodeChar] at low
  exact List.length_eq_zero_iff.mp low

/-- A carriage return at the end has no part in whether some bytes are text. -/
theorem isSome_text?_concat (line : List UInt8) :
    (text? (line ++ [13])).isSome = true ↔ (text? line).isSome = true := by
  rw [isSome_text?_iff, isSome_text?_iff]
  constructor
  · rintro ⟨chars, h⟩
    induction chars using List.reverseRecOn with
    | nil => simp at h
    | append_singleton chars c _ =>
      rw [List.flatMap_append, List.flatMap_singleton] at h
      obtain ⟨start, last, spelled⟩ :=
        (List.eq_nil_or_concat' _).resolve_left (String.utf8EncodeChar_ne_nil (c := c))
      rw [spelled, ← List.append_assoc] at h
      obtain ⟨before, rfl⟩ := List.append_singleton_inj.mp h
      -- A carriage return begins a character, so it is the whole of the last one.
      obtain rfl := eq_nil_of_utf8EncodeChar (by decide) spelled
      exact ⟨chars, by rw [before, List.append_nil]⟩
  · rintro ⟨chars, rfl⟩
    exact ⟨chars ++ [Char.ofNat 13], by rw [List.flatMap_append]; rfl⟩

theorem text?_trim_eq_none_iff : text? (trim line) = none ↔ text? line = none := by
  rw [trim]
  split
  case isTrue ends =>
    obtain ⟨before, rfl⟩ := List.getLast?_eq_some_iff.mp ends
    rw [List.dropLast_concat, ← Option.not_isSome_iff_eq_none, ← isSome_text?_concat,
      Option.not_isSome_iff_eq_none]
  case isFalse => rfl

/-! ## Texts in bytes -/

/-- The bytes of a text. -/
def ofText (text : String) : List UInt8 := text.toList.flatMap String.utf8EncodeChar

theorem text?_ofText (text : String) : text? (ofText text) = some text := by
  have same : (⟨(ofText text).toArray⟩ : ByteArray) = text.toByteArray := by
    rw [← String.utf8Encode_toList]
    simp [ByteArray.ext_iff, List.utf8Encode, ofText]
  rw [text?, same, String.fromUTF8?, dif_pos text.isValidUTF8]
  rfl

/-- A byte of a character is that character itself, or it is not below 128. -/
theorem eq_or_le_of_mem_utf8EncodeChar (c : Char) :
    ∀ byte ∈ String.utf8EncodeChar c, byte.toNat = c.toNat ∨ 128 ≤ byte.toNat := by
  have code : c.val.toNat = c.toNat := rfl
  simp only [String.utf8EncodeChar, code]
  repeat' split
  all_goals
    simp only [List.forall_mem_cons, List.not_mem_nil, IsEmpty.forall_iff, implies_true, and_true,
      UInt8.toNat_ofNat']
    omega

theorem eq_of_mem_utf8EncodeChar {c d : Char} {byte : UInt8} (low : byte.toNat < 128)
    (same : byte.toNat = d.toNat) (h : byte ∈ String.utf8EncodeChar c) : c = d := by
  have code := (eq_or_le_of_mem_utf8EncodeChar c byte h).resolve_right (Nat.not_le.mpr low)
  exact Char.toNat_inj.mp (code.symm.trans same)

theorem not_mem_ofText {text : String} (single : OneLine text) : 10 ∉ ofText text := by
  intro h
  obtain ⟨c, hc, spelled⟩ := List.mem_flatMap.mp h
  obtain rfl := eq_of_mem_utf8EncodeChar (d := '\n') (by decide) (by decide) spelled
  exact single hc

/-- A text is a line if a line feed comes behind it. -/
theorem ofBytes_ofText_append {text : String} (single : OneLine text) (b : List UInt8) :
    ofBytes (ofText text ++ 10 :: b) = trim (ofText text) :: ofBytes b := by
  rw [ofBytes_append_cons, List.splitOn_eq_singleton (not_mem_ofText single), List.map_singleton,
    List.singleton_append]

/-- So it is if nothing comes behind it. -/
theorem ofBytes_ofText {text : String} (filled : text ≠ "") (single : OneLine text) :
    ofBytes (ofText text) = [ofText text] := by
  have some_bytes : ofText text ≠ [] := by
    intro none
    have same := text?_ofText text
    rw [none] at same
    exact filled (Option.some.inj same).symm
  simp [ofBytes, complete, List.splitOn_eq_singleton (not_mem_ofText single), some_bytes]

/-- What is read of a text as a line is that text, or the text before the carriage return at its
end. -/
theorem text?_trim_ofText (text : String) :
    ∃ kept, text? (trim (ofText text)) = some kept ∧
      (kept = text ∨ text.toList = kept.toList ++ ['\r']) := by
  rw [trim]
  split
  case isFalse => exact ⟨text, text?_ofText text, .inl rfl⟩
  case isTrue ends =>
    rcases List.eq_nil_or_concat' text.toList with empty | ⟨front, c, split⟩
    · simp [ofText, empty] at ends
    · have parts : ofText text = ofText (String.ofList front) ++ String.utf8EncodeChar c := by
        simp [ofText, split]
      rw [parts, List.getLast?_append_of_ne_nil _ String.utf8EncodeChar_ne_nil] at ends
      obtain rfl := eq_of_mem_utf8EncodeChar (d := '\r') (by decide) (by decide)
        (List.mem_of_getLast? ends)
      have alone : String.utf8EncodeChar '\r' = [13] := by decide
      refine ⟨String.ofList front, ?_, .inr (by simpa using split)⟩
      rw [parts, alone, List.dropLast_concat, text?_ofText]

end Lines

end Timeshare
