/-
Module: MiningPool.Proofs.Json.StringText
Purpose: every text is read back from its JSON string.
Main exports: Json.readStringBytes?_escape, Json.parse?_stringText
-/
import MiningPool.Json.Reader
import MiningPool.Proofs.Utf8

/-!
A string is read byte by byte. A byte that is neither the quote nor the backslash nor a control character is
taken as it is, and so are all bytes of a character beyond ASCII. What stands for any other character begins
with a backslash, and is read as the bytes of that character.
-/

namespace MiningPool.Json

/-! ### One character -/

/-- A byte that stands for itself inside quotes. -/
def IsPlain (b : UInt8) : Prop := b ≠ 0x22 ∧ b ≠ 0x5c ∧ ¬b < 0x20

theorem readStringBytes?_plain {bytes : List UInt8} (plain : ∀ b ∈ bytes, IsPlain b)
    (done rest : List UInt8) :
    readStringBytes? done (bytes ++ rest) = readStringBytes? (bytes.reverse ++ done) rest := by
  induction bytes generalizing done with
  | nil => rfl
  | cons b bytes ih =>
      obtain ⟨⟨quote, backslash, printable⟩, others⟩ := List.forall_mem_cons.1 plain
      rw [List.cons_append, List.reverse_cons, List.append_assoc, List.singleton_append, ← ih others]
      rw [readStringBytes?.eq_def]
      simp [quote, backslash, printable]

/-- A letter behind a backslash. -/
theorem readStringBytes?_escaped {b byte : UInt8} (stands : escaped? b = some byte)
    (done rest : List UInt8) :
    readStringBytes? done (0x5c :: b :: rest) = readStringBytes? (byte :: done) rest := by
  have other : b ≠ 0x75 := by
    rintro rfl
    cases stands
  rw [readStringBytes?.eq_def]
  simp [other, stands]

/-- Four digits behind a backslash and the letter for them. -/
theorem readStringBytes?_code {a b c d : UInt8} {code : Nat} (digits : hexValue? a b c d = some code)
    (single : isTrailing code = false ∧ isLeading code = false) (done rest : List UInt8) :
    readStringBytes? done (0x5c :: 0x75 :: a :: b :: c :: d :: rest) =
      readStringBytes? (pushCode code done) rest := by
  rw [readStringBytes?.eq_def]
  simp [digits, single]

theorem plain_encodeChar {c : Char} (quote : c ≠ '"') (backslash : c ≠ '\\')
    (printable : 0x20 ≤ c.toNat) : ∀ b ∈ Utf8.encodeChar c, IsPlain b := by
  by_cases ascii : c.toNat < 0x80
  · rw [Utf8.encodeChar_of_ascii ascii, List.forall_mem_singleton]
    have code : (UInt8.ofNat c.toNat).toNat = c.toNat := by
      rw [UInt8.toNat_ofNat', Nat.mod_eq_of_lt (by omega)]
    refine ⟨?_, ?_, ?_⟩
    · intro same
      rw [same] at code
      exact quote (Char.toNat_inj.1 code.symm)
    · intro same
      rw [same] at code
      exact backslash (Char.toNat_inj.1 code.symm)
    · rw [UInt8.lt_iff_toNat_lt, code]
      exact Nat.not_lt.2 printable
  · intro b member
    have beyond := Utf8.le_of_mem_encodeChar (Nat.not_lt.1 ascii) b member
    refine ⟨?_, ?_, ?_⟩
    · rintro rfl
      exact absurd beyond (by decide)
    · rintro rfl
      exact absurd beyond (by decide)
    · rw [UInt8.lt_iff_toNat_lt]
      exact Nat.not_lt.2 (Nat.le_trans (by decide) beyond)

/-- The bytes of what stands for a character. -/
def escapeBytes (c : Char) : List UInt8 := (escape c).flatMap Utf8.encodeChar

theorem hexValue?_control : ∀ code < 0x20,
    hexValue? 0x30 0x30 (UInt8.ofNat (Nat.digitChar (code / 16)).toNat)
      (UInt8.ofNat (Nat.digitChar (code % 16)).toNat) = some code := by
  decide

theorem encodeChar_digitChar : ∀ digit < 16,
    Utf8.encodeChar (Nat.digitChar digit) = [UInt8.ofNat (Nat.digitChar digit).toNat] := by
  decide

/-- A control character without a letter of its own. -/
theorem readStringBytes?_control {c : Char} (control : c.toNat < 0x20) (done rest : List UInt8) :
    readStringBytes? done (['\\', 'u', '0', '0', Nat.digitChar (c.toNat / 16),
        Nat.digitChar (c.toNat % 16)].flatMap Utf8.encodeChar ++ rest) =
      readStringBytes? ((Utf8.encodeChar c).reverse ++ done) rest := by
  have single : isTrailing c.toNat = false ∧ isLeading c.toNat = false := by
    simp [isTrailing, isLeading]
    omega
  simp only [List.flatMap_cons, List.flatMap_nil, List.append_nil]
  rw [encodeChar_digitChar _ (by omega), encodeChar_digitChar _ (by omega)]
  have read := readStringBytes?_code (hexValue?_control _ control) single done rest
  rwa [pushCode, Char.ofNat_toNat] at read

/-- What stands for a character is read as the bytes of the character. -/
theorem readStringBytes?_escape (c : Char) (done rest : List UInt8) :
    readStringBytes? done (escapeBytes c ++ rest) =
      readStringBytes? ((Utf8.encodeChar c).reverse ++ done) rest := by
  by_cases letter : c ∈ ['"', '\\', '\x08', '\x0c', '\n', '\r', '\t']
  · simp only [List.mem_cons, List.not_mem_nil, or_false] at letter
    rcases letter with rfl | rfl | rfl | rfl | rfl | rfl | rfl
    all_goals exact readStringBytes?_escaped rfl done rest
  · simp only [List.mem_cons, List.not_mem_nil, or_false, not_or] at letter
    obtain ⟨quote, backslash, backspace, feed, newline, carriage, tab⟩ := letter
    rw [escapeBytes, escape, if_neg quote, if_neg backslash, if_neg backspace, if_neg feed,
      if_neg newline, if_neg carriage, if_neg tab]
    by_cases control : c.toNat < 0x20
    · rw [if_pos control]
      exact readStringBytes?_control control done rest
    · rw [if_neg control, List.flatMap_singleton]
      exact readStringBytes?_plain (plain_encodeChar quote backslash (Nat.not_lt.1 control)) done rest

/-! ### Whole texts -/

theorem readStringBytes?_escapes (characters : List Char) (done rest : List UInt8) :
    readStringBytes? done (characters.flatMap escapeBytes ++ 0x22 :: rest) =
      some (done.reverse ++ characters.flatMap Utf8.encodeChar, rest) := by
  induction characters generalizing done with
  | nil =>
      rw [List.flatMap_nil, List.flatMap_nil, List.nil_append, List.append_nil, readStringBytes?.eq_def]
      simp
  | cons c characters ih =>
      rw [List.flatMap_cons, List.append_assoc, readStringBytes?_escape, ih, List.flatMap_cons,
        List.reverse_append, List.reverse_reverse, List.append_assoc]

theorem encode_stringText (text : String) :
    Utf8.encode (stringText text) = 0x22 :: (text.toList.flatMap escapeBytes ++ [0x22]) := by
  have quote : Utf8.encodeChar '"' = [0x22] := rfl
  simp [Utf8.encode, stringText, List.flatMap_assoc, quote]
  rfl

theorem readString?_escapes (text : String) :
    readString? (text.toList.flatMap escapeBytes ++ [0x22]) = some (text, []) := by
  have decoded : Utf8.decode? (text.toList.flatMap Utf8.encodeChar) = some text.toList :=
    Utf8.decode?_encode text
  rw [readString?, readStringBytes?_escapes]
  simp [decoded]

/-- The JSON string of a text is read back as the text. -/
theorem parse?_stringText (text : String) :
    parse? (Utf8.encode (stringText text)) = some (.string text) := by
  have begins : ∀ rest, skipBlank (0x22 :: rest) = 0x22 :: rest := fun rest => rfl
  have scalar : readScalar? (0x22 :: (text.toList.flatMap escapeBytes ++ [0x22])) =
      some (.string text, []) := by
    rw [readScalar?, if_pos rfl, readString?_escapes]
    rfl
  have value : readValue? depthLimit (0x22 :: (text.toList.flatMap escapeBytes ++ [0x22])) =
      some (.string text, []) := by
    rw [readValue?, readValueWithin?]
    · exact scalar
    all_goals simp [begins]
  rw [encode_stringText, parse?, value]
  rfl

end MiningPool.Json
