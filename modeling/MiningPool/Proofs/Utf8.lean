/-
Module: MiningPool.Proofs.Utf8
Purpose: texts are read back from their bytes, and only ASCII characters have ASCII bytes.
Main exports: Utf8.encodeChar_of_ascii, Utf8.le_of_mem_encodeChar, Utf8.decode?_encode
-/
import MiningPool.Utf8

/-!
A character has one byte if it is an ASCII character, and then the byte is its code; all bytes of any other
character are beyond ASCII. The reader takes one character after the other off the front.
-/

namespace MiningPool.Utf8

/-! ### One character -/

theorem encodeChar_of_ascii {c : Char} (ascii : c.toNat < 0x80) :
    encodeChar c = [UInt8.ofNat c.toNat] := by
  rw [encodeChar]
  exact if_pos ascii

/-- A mark and the bits of a code beside it in one byte. -/
theorem toNat_ofNat_add {high low : Nat} (byte : high + low < 256) :
    (UInt8.ofNat (high + low)).toNat = high + low := by
  rw [UInt8.toNat_ofNat', Nat.mod_eq_of_lt byte]

theorem tail?_ofNat {low : Nat} (small : low < 64) : tail? (UInt8.ofNat (0x80 + low)) = some low := by
  rw [tail?, toNat_ofNat_add (by omega), if_pos (by omega), Nat.add_sub_cancel_left]

theorem scalar?_toNat (c : Char) {low : Nat} (above : low ≤ c.toNat) : scalar? low c.toNat = some c := by
  have valid : c.toNat.isValidChar := c.valid
  rw [scalar?, if_pos above, dif_pos valid]
  rfl

theorem toNat_lt (c : Char) : c.toNat < 0x110000 := by
  have valid : c.toNat.isValidChar := c.valid
  unfold Nat.isValidChar at valid
  omega

/-- No byte of a character beyond ASCII is an ASCII character. -/
theorem le_of_mem_encodeChar {c : Char} (beyond : 0x80 ≤ c.toNat) :
    ∀ b ∈ encodeChar c, 0x80 ≤ b.toNat := by
  have bounded := toNat_lt c
  unfold encodeChar
  dsimp only
  rw [if_neg (Nat.not_lt.2 beyond)]
  split
  · simp only [List.forall_mem_cons, List.not_mem_nil, false_implies, implies_true, and_true]
    rw [toNat_ofNat_add (by omega), toNat_ofNat_add (by omega)]
    omega
  · split
    · simp only [List.forall_mem_cons, List.not_mem_nil, false_implies, implies_true, and_true]
      rw [toNat_ofNat_add (by omega), toNat_ofNat_add (by omega), toNat_ofNat_add (by omega)]
      omega
    · simp only [List.forall_mem_cons, List.not_mem_nil, false_implies, implies_true, and_true]
      rw [toNat_ofNat_add (by omega), toNat_ofNat_add (by omega), toNat_ofNat_add (by omega),
        toNat_ofNat_add (by omega)]
      omega

theorem encodeChar_ne_nil (c : Char) : encodeChar c ≠ [] := by
  unfold encodeChar
  dsimp only
  split
  · exact List.cons_ne_nil _ _
  · split
    · exact List.cons_ne_nil _ _
    · split <;> exact List.cons_ne_nil _ _

/-- The character in front is read, whatever follows. -/
theorem next?_encodeChar (c : Char) (rest : List UInt8) :
    next? (encodeChar c ++ rest) = some (c, rest) := by
  have bounded := toNat_lt c
  unfold encodeChar
  dsimp only
  split
  · rename_i ascii
    have lead : (UInt8.ofNat c.toNat).toNat = c.toNat := by
      rw [UInt8.toNat_ofNat', Nat.mod_eq_of_lt (by omega)]
    simp only [List.singleton_append, next?]
    rw [lead, if_pos ascii, scalar?_toNat c (Nat.zero_le _)]
    rfl
  split
  · simp only [List.cons_append, List.nil_append, next?]
    rw [toNat_ofNat_add (by omega), if_neg (by omega), if_neg (by omega), if_pos (by omega),
      tail?_ofNat (by omega)]
    have whole : (0xC0 + c.toNat / 64 - 0xC0) * 64 + c.toNat % 64 = c.toNat := by omega
    simp only [Option.bind_eq_bind, Option.bind_some, whole]
    rw [scalar?_toNat c (by omega)]
    rfl
  split
  · simp only [List.cons_append, List.nil_append, next?]
    rw [toNat_ofNat_add (by omega), if_neg (by omega), if_neg (by omega), if_neg (by omega),
      if_pos (by omega), tail?_ofNat (by omega), tail?_ofNat (by omega)]
    have whole : ((0xE0 + c.toNat / 4096 - 0xE0) * 64 + c.toNat / 64 % 64) * 64 + c.toNat % 64 =
        c.toNat := by omega
    simp only [Option.bind_eq_bind, Option.bind_some, whole]
    rw [scalar?_toNat c (by omega)]
    rfl
  · simp only [List.cons_append, List.nil_append, next?]
    rw [toNat_ofNat_add (by omega), if_neg (by omega), if_neg (by omega), if_neg (by omega),
      if_neg (by omega), if_pos (by omega), tail?_ofNat (by omega), tail?_ofNat (by omega),
      tail?_ofNat (by omega)]
    have whole : (((0xF0 + c.toNat / 262144 - 0xF0) * 64 + c.toNat / 4096 % 64) * 64 +
        c.toNat / 64 % 64) * 64 + c.toNat % 64 = c.toNat := by omega
    simp only [Option.bind_eq_bind, Option.bind_some, whole]
    rw [scalar?_toNat c (by omega)]
    rfl

/-! ### Texts -/

theorem decodeLoop_encode {limit : Nat} {characters : List Char} (enough : characters.length ≤ limit)
    (done : List Char) :
    decodeLoop limit done (characters.flatMap encodeChar) = some (done.reverse ++ characters) := by
  induction characters generalizing limit done with
  | nil => simp [decodeLoop]
  | cons c characters ih =>
      cases limit with
      | zero => cases enough
      | succ limit =>
          have front := next?_encodeChar c (characters.flatMap encodeChar)
          rw [List.flatMap_cons]
          cases bytes : encodeChar c ++ characters.flatMap encodeChar with
          | nil => exact absurd (List.append_eq_nil_iff.1 bytes).1 (encodeChar_ne_nil c)
          | cons b rest =>
              rw [bytes] at front
              simp only [decodeLoop, front]
              rw [ih (Nat.le_of_succ_le_succ enough), List.reverse_cons, List.append_assoc]
              rfl

theorem length_le_length_encode (characters : List Char) :
    characters.length ≤ (characters.flatMap encodeChar).length := by
  induction characters with
  | nil => exact Nat.le_refl _
  | cons c characters ih =>
      have some := List.length_pos_iff.2 (encodeChar_ne_nil c)
      rw [List.flatMap_cons, List.length_append, List.length_cons]
      omega

/-- Every text is read back. -/
theorem decode?_encode (text : String) : decode? (encode text) = some text.toList :=
  decodeLoop_encode (length_le_length_encode text.toList) []

end MiningPool.Utf8
