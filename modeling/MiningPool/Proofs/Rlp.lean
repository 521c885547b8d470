/-
Module: MiningPool.Proofs.Rlp
Purpose: encoded lists of byte strings are decoded to what they were made of.
Main exports: Rlp.decodeItem?_encodeBytes, Rlp.decode?_encode_list
-/
import MiningPool.Proofs.BigEndian
import MiningPool.Rlp

/-!
A head announces a length in at most eight bytes, so that payloads of 2⁶⁴ bytes and more have no
encoding. Below that, an encoded byte string or list of byte strings is read back, whatever follows it.
-/

namespace MiningPool.Rlp

/-! ### Heads -/

theorem payload?_append (value rest : List UInt8) :
    payload? value.length (value ++ rest) = some (value, rest) := by
  simp [payload?]

theorem payload?_self (value : List UInt8) : payload? value.length value = some (value, []) := by
  simp [payload?]

theorem longLength?_minimalBE {length : Nat} (long : 55 < length) (rest : List UInt8) :
    longLength? (minimalBE length).length (minimalBE length ++ rest) = some (length, rest) := by
  simp [longLength?, natBE_minimalBE, long]

theorem length_minimalBE_pos {n : Nat} (positive : 0 < n) : 0 < (minimalBE n).length := by
  rw [minimalBE, if_neg (by omega)]
  simp

theorem length_minimalBE_le_eight {n : Nat} (fits : n < 2 ^ (64 : Nat)) :
    (minimalBE n).length ≤ 8 :=
  length_minimalBE_le (by simpa using fits)

/-- The length that a lead byte and the bytes after it announce. -/
theorem head_append {base length : Nat} (low : base ≤ 192) (fits : length < 2 ^ (64 : Nat))
    (rest : List UInt8) :
    ∃ lead after, head base length ++ rest = lead :: after ∧
      base ≤ lead.toNat ∧ lead.toNat < base + 64 ∧
      (if lead.toNat ≤ base + 55 then some (lead.toNat - base, after)
        else longLength? (lead.toNat - (base + 55)) after) = some (length, rest) := by
  by_cases short : length ≤ 55
  · have leadNat : (UInt8.ofNat (base + length)).toNat = base + length :=
      UInt8.toNat_ofNat_of_lt' (by simp [UInt8.size]; omega)
    refine ⟨UInt8.ofNat (base + length), rest, by rw [head, if_pos short]; rfl, ?_⟩
    rw [leadNat, if_pos (by omega), Nat.add_sub_cancel_left]
    exact ⟨by omega, by omega, rfl⟩
  · have positive := length_minimalBE_pos (show 0 < length by omega)
    have atMost := length_minimalBE_le_eight fits
    have leadNat : (UInt8.ofNat (base + 55 + (minimalBE length).length)).toNat =
        base + 55 + (minimalBE length).length :=
      UInt8.toNat_ofNat_of_lt' (by simp [UInt8.size]; omega)
    refine ⟨_, minimalBE length ++ rest, by rw [head, if_neg short]; rfl, ?_⟩
    rw [leadNat, if_neg (by omega), Nat.add_sub_cancel_left]
    exact ⟨by omega, by omega, longLength?_minimalBE (by omega) rest⟩

/-! ### Byte strings -/

/-- A byte string behind its head. -/
theorem decodeItem?_head (depth : Nat) {value : List UInt8} (fits : value.length < 2 ^ (64 : Nat))
    (notSmall : ∀ byte, value = [byte] → 128 ≤ byte.toNat) (rest : List UInt8) :
    decodeItem? depth (head 0x80 value.length ++ (value ++ rest)) = some (.bytes value, rest) := by
  obtain ⟨lead, after, spelled, least, most, announced⟩ :=
    head_append (show 0x80 ≤ 192 by omega) fits (value ++ rest)
  rw [spelled, decodeItem?]
  simp only
  rw [if_neg (by omega), if_pos (by omega)]
  by_cases short : lead.toNat ≤ 183
  · rw [if_pos short] at announced ⊢
    rw [announced, Option.bind_eq_bind, Option.bind_some, payload?_append, Option.bind_eq_bind,
      Option.bind_some]
    split
    · rename_i same
      exact if_neg (Nat.not_lt.2 (notSmall _ same))
    · rfl
  · rw [if_neg short] at announced ⊢
    rw [announced, Option.bind_eq_bind, Option.bind_some, payload?_append, Option.bind_eq_bind,
      Option.bind_some]
    split
    · rename_i same
      exact if_neg (Nat.not_lt.2 (notSmall _ same))
    · rfl

theorem decodeItem?_encodeBytes (depth : Nat) {value : List UInt8}
    (fits : value.length < 2 ^ (64 : Nat)) (rest : List UInt8) :
    decodeItem? depth (encodeBytes value ++ rest) = some (.bytes value, rest) := by
  unfold encodeBytes
  split
  · rename_i byte
    split
    · rename_i small
      rw [List.singleton_append, decodeItem?]
      simp only
      rw [if_pos small]
    · rename_i large
      rw [List.append_assoc]
      exact decodeItem?_head depth fits (by simp; omega) rest
  · rename_i several
    rw [List.append_assoc]
    exact decodeItem?_head depth fits (fun byte same => absurd same (several byte)) rest

/-! ### Lists of byte strings -/

theorem encodeBytes_ne_nil (value : List UInt8) : encodeBytes value ≠ [] := by
  unfold encodeBytes
  split
  · split <;> simp [head]
  · rw [head]
    split <;> simp

theorem decodeItems?_encodeAll (depth : Nat) {values : List (List UInt8)} {limit : Nat}
    (fits : ∀ value ∈ values, value.length < 2 ^ (64 : Nat)) (enough : values.length ≤ limit) :
    decodeItems? depth limit (encodeAll (values.map .bytes)) = some (values.map .bytes) := by
  induction values generalizing limit with
  | nil => simp [encodeAll, decodeItems?]
  | cons value values ih =>
      obtain ⟨limit, rfl⟩ : ∃ less, limit = less + 1 := ⟨limit - 1, by simp at enough; omega⟩
      have first := decodeItem?_encodeBytes depth (fits value (by simp))
        (encodeAll (values.map .bytes))
      have others := ih (fun other member => fits other (by simp [member]))
        (by simpa using enough)
      rw [List.map_cons, encodeAll, Item.encode, decodeItems?]
      · rw [first]
        simp only [Option.bind_eq_bind, Option.bind_some, others]
      · simp [encodeBytes_ne_nil]

theorem length_le_length_encodeAll (values : List (List UInt8)) :
    values.length ≤ (encodeAll (values.map .bytes)).length := by
  induction values with
  | nil => simp
  | cons value values ih =>
      have positive := List.length_pos_iff.2 (encodeBytes_ne_nil value)
      rw [List.map_cons, encodeAll, Item.encode, List.length_append, List.length_cons]
      omega

theorem length_le_length_encodeBytes (value : List UInt8) :
    value.length ≤ (encodeBytes value).length := by
  unfold encodeBytes
  split
  · split <;> simp
  · simp

theorem length_le_of_mem_encodeAll {values : List (List UInt8)} {value : List UInt8}
    (member : value ∈ values) : value.length ≤ (encodeAll (values.map .bytes)).length := by
  induction values with
  | nil => simp at member
  | cons first values ih =>
      rw [List.map_cons, encodeAll, Item.encode, List.length_append]
      rcases List.mem_cons.1 member with rfl | later
      · exact (length_le_length_encodeBytes value).trans (Nat.le_add_right _ _)
      · exact (ih later).trans (Nat.le_add_left _ _)

/-- A list of byte strings is read back, and nothing is left over. -/
theorem decode?_encode_list {values : List (List UInt8)}
    (fits : (Item.list (values.map .bytes)).encode.length < 2 ^ (64 : Nat)) :
    decode? (Item.list (values.map .bytes)).encode = some (.list (values.map .bytes), []) := by
  rw [Item.encode] at fits ⊢
  have payloadFits : (encodeAll (values.map .bytes)).length < 2 ^ (64 : Nat) := by
    rw [List.length_append] at fits
    omega
  obtain ⟨lead, after, spelled, least, most, announced⟩ :=
    head_append (show 0xC0 ≤ 192 by omega) payloadFits (encodeAll (values.map .bytes))
  have items := decodeItems?_encodeAll after.length
    (fun value member => (length_le_of_mem_encodeAll member).trans_lt payloadFits)
    (length_le_length_encodeAll values)
  rw [decode?, spelled, decodeItem?]
  simp only
  rw [if_neg (by omega), if_neg (by omega)]
  by_cases short : lead.toNat ≤ 247
  · rw [if_pos short] at announced ⊢
    rw [announced, Option.bind_eq_bind, Option.bind_some, payload?_self, Option.bind_eq_bind,
      Option.bind_some]
    simp only [List.length_cons, items, Option.bind_eq_bind, Option.bind_some]
  · rw [if_neg short] at announced ⊢
    rw [announced, Option.bind_eq_bind, Option.bind_some, payload?_self, Option.bind_eq_bind,
      Option.bind_some]
    simp only [List.length_cons, items, Option.bind_eq_bind, Option.bind_some]

end MiningPool.Rlp
