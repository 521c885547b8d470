/-
Module: MiningPool.Proofs.Block.HexText
Purpose: the texts and the JSON of fixed-size values, and which of them are read.
Main exports: Hex.Spells, HexForm, FixedBytes.hexForm, BlockNonce.hexForm, hexText_exact
-/
import MiningPool.Json.Value
import MiningPool.Proofs.BigEndian
import MiningPool.Proofs.Json.StringText
import MiningPool.Proofs.Number.Hexadecimal

/-!
A value of `n` bytes is read from `2 * n` digits of either case, with or without one `0x` in front, and from
nothing else. The length is counted in bytes of UTF-8, but a text whose bytes are all digits has no character
beyond ASCII, so it is the number of digits as well. A value is written behind `0x` in lower case; as JSON it is
that text as a string.
-/

namespace MiningPool

namespace Hex

/-! ### Digits and bytes -/

/-- The byte of an ASCII character. -/
def byteOf (c : Char) : UInt8 := UInt8.ofNat c.toNat

theorem digitValue?_byteOf {c : Char} (isDigit : IsDigit c) :
    digitValue? (byteOf c) = some (valueOf c) :=
  IsDigit.of_checked (P := fun c => digitValue? (byteOf c) = some (valueOf c)) (by decide +kernel) isDigit

theorem digit_valueOf {c : Char} (isDigit : IsDigit c) : digit (valueOf c) = c.toLower :=
  IsDigit.of_checked (P := fun c => digit (valueOf c) = c.toLower) (by decide +kernel) isDigit

theorem isDigit_digit : ∀ value < 16, IsDigit (digit value) ∧ valueOf (digit value) = value := by
  decide +kernel

/-- A byte that is a digit is the byte of a digit. -/
theorem isDigit_of_digitValue? {c : Char}
    (some : ∀ b ∈ Utf8.encodeChar c, (digitValue? b).isSome = true) : IsDigit c := by
  by_cases ascii : c.toNat < 0x80
  · have first : ∀ code < 128, (digitValue? (UInt8.ofNat code)).isSome = true →
        IsDigit (.ofNat code) := by decide +kernel
    rw [Utf8.encodeChar_of_ascii ascii, List.forall_mem_singleton] at some
    simpa only [Char.ofNat_toNat] using first _ ascii some
  · have digits : ∀ code < 256, (digitValue? (UInt8.ofNat code)).isSome = true → code < 0x80 := by
      decide +kernel
    obtain ⟨b, rest, bytes⟩ := List.exists_cons_of_ne_nil (Utf8.encodeChar_ne_nil c)
    have member : b ∈ Utf8.encodeChar c := by
      rw [bytes]
      exact List.mem_cons_self
    have beyond := Utf8.le_of_mem_encodeChar (Nat.not_lt.1 ascii) b member
    have small := digits b.toNat b.toNat_lt
    rw [UInt8.ofNat_toNat] at small
    exact absurd (small (some b member)) (Nat.not_lt.2 beyond)

theorem encode_digits {digits : List Char} (all : ∀ c ∈ digits, IsDigit c) :
    digits.flatMap Utf8.encodeChar = digits.map byteOf := by
  induction digits with
  | nil => rfl
  | cons c digits ih =>
      obtain ⟨isDigit, others⟩ := List.forall_mem_cons.1 all
      rw [List.flatMap_cons, Utf8.encodeChar_of_ascii isDigit.toNat_lt, ih others]
      rfl

/-! ### Reading digits -/

theorem isSome_of_decodeFrom {position : Nat} {digits bytes : List UInt8}
    (read : decodeFrom position digits = .ok bytes) :
    ∀ b ∈ digits, (digitValue? b).isSome = true := by
  fun_induction decodeFrom position digits generalizing bytes with
  | case1 => exact List.forall_mem_nil _
  | case2 => cases read
  | case3 => cases read
  | case4 => cases read
  | case5 => cases read
  | case6 _ high low rest h l isLow isHigh inner front ih =>
      rw [List.forall_mem_cons, List.forall_mem_cons, isHigh, isLow]
      exact ⟨rfl, rfl, ih front⟩

/-- Two digits for every byte are read, and written again in lower case. -/
theorem decodeFrom_digits {count : Nat} {digits : List Char} (all : ∀ c ∈ digits, IsDigit c)
    (even : digits.length = 2 * count) (position : Nat) :
    ∃ bytes, decodeFrom position (digits.map byteOf) = .ok bytes ∧
      (∀ high, bytes.foldl (fun high b => high * 256 + b.toNat) high = spelledFrom high digits) ∧
      encode bytes = digits.map Char.toLower := by
  induction count generalizing digits position with
  | zero =>
      rw [List.length_eq_zero_iff.1 even]
      exact ⟨[], rfl, fun high => rfl, rfl⟩
  | succ count ih =>
      match digits with
      | [] => cases even
      | [_] => simp at even; omega
      | high :: low :: rest =>
          obtain ⟨isHigh, all⟩ := List.forall_mem_cons.1 all
          obtain ⟨isLow, all⟩ := List.forall_mem_cons.1 all
          simp only [List.length_cons] at even
          obtain ⟨bytes, read, value, written⟩ := ih all (by omega) (position + 2)
          have highSmall := isHigh.valueOf_lt
          have lowSmall := isLow.valueOf_lt
          have byte : (UInt8.ofNat (valueOf high * 16 + valueOf low)).toNat =
              valueOf high * 16 + valueOf low := by
            rw [UInt8.toNat_ofNat', Nat.mod_eq_of_lt (by omega)]
          refine ⟨UInt8.ofNat (valueOf high * 16 + valueOf low) :: bytes, ?_, ?_, ?_⟩
          · simp only [List.map_cons, decodeFrom, digitValue?_byteOf isHigh, digitValue?_byteOf isLow,
              read]
          · intro before
            have same : before * 256 + (valueOf high * 16 + valueOf low) =
                (before * 16 + valueOf high) * 16 + valueOf low := by ring
            rw [List.foldl_cons, byte, value, same]
            rfl
          · have first : (valueOf high * 16 + valueOf low) / 16 = valueOf high := by omega
            have second : (valueOf high * 16 + valueOf low) % 16 = valueOf low := by omega
            rw [encode, List.flatMap_cons, ← encode, written, encodeByte, byte, first, second,
              digit_valueOf isHigh, digit_valueOf isLow]
            rfl

/-! ### Writing digits -/

theorem encode_isDigit (bytes : List UInt8) : ∀ c ∈ encode bytes, IsDigit c := by
  intro c member
  obtain ⟨b, _, member⟩ := List.mem_flatMap.1 member
  have small := b.toNat_lt
  simp only [encodeByte, List.mem_cons, List.not_mem_nil, or_false] at member
  rcases member with rfl | rfl
  · exact (isDigit_digit _ (by omega)).1
  · exact (isDigit_digit _ (by omega)).1

theorem length_encode (bytes : List UInt8) : (encode bytes).length = 2 * bytes.length := by
  induction bytes with
  | nil => rfl
  | cons b bytes ih =>
      rw [encode, List.flatMap_cons, List.length_append, ← encode, ih, encodeByte, List.length_cons]
      simp only [List.length_cons, List.length_nil]
      omega

theorem spelled_encode (bytes : List UInt8) : spelled (encode bytes) = natBE bytes := by
  have behind : ∀ high, spelledFrom high (encode bytes) =
      bytes.foldl (fun high b => high * 256 + b.toNat) high := by
    induction bytes with
    | nil => exact fun high => rfl
    | cons b bytes ih =>
        intro high
        have small := b.toNat_lt
        obtain ⟨_, first⟩ := isDigit_digit (b.toNat / 16) (by omega)
        obtain ⟨_, second⟩ := isDigit_digit (b.toNat % 16) (by omega)
        have same : (high * 16 + b.toNat / 16) * 16 + b.toNat % 16 = high * 256 + b.toNat := by omega
        rw [List.foldl_cons, ← ih, ← same]
        simp only [encode, List.flatMap_cons, encodeByte, List.cons_append, List.nil_append,
          spelledFrom, List.foldl_cons, first, second]
  rw [spelled_eq, behind]
  rfl

/-! ### Texts -/

/-- The text of `n` bytes: two digits for each byte, perhaps behind `0x`. -/
structure Spells (n : Nat) (text : String) (digits : List Char) : Prop where
  all : ∀ c ∈ digits, IsDigit c
  length : digits.length = 2 * n
  written : text.toList = digits ∨ text.toList = '0' :: 'x' :: digits

/-- What is left of the text without its mark. -/
theorem Spells.unmarked {n : Nat} {text : String} {digits : List Char} (spells : Spells n text digits) :
    ((withoutMark text).getD text).toList = digits := by
  rcases spells.written with plain | marked
  · have none : withoutMark text = none := by
      rw [withoutMark_eq_none]
      intro rest marked
      have letter : 'x' ∈ digits := by
        rw [← plain, marked]
        exact List.mem_cons_of_mem _ List.mem_cons_self
      exact absurd (spells.all 'x' letter) (by decide)
    rw [none]
    exact plain
  · have some : withoutMark text = some (String.ofList digits) := by
      rw [withoutMark_eq_some, marked, String.toList_ofList]
    rw [some]
    exact String.toList_ofList

theorem spells_marked (bytes : List UInt8) : Spells bytes.length (marked bytes) (encode bytes) where
  all := encode_isDigit bytes
  length := length_encode bytes
  written := by
    right
    simp [marked, text]

/-- A text without its mark is the text, or begins behind it. -/
theorem toList_eq_or (text : String) :
    text.toList = ((withoutMark text).getD text).toList ∨
      text.toList = '0' :: 'x' :: ((withoutMark text).getD text).toList := by
  cases mark : withoutMark text with
  | none => exact .inl rfl
  | some rest => exact .inr (withoutMark_eq_some.1 mark)

end Hex

namespace FixedBytes

variable {n : Nat}

theorem parse_eq_ok {source : String} {value : FixedBytes n} : parse n source = .ok value ↔
    (Utf8.encode ((withoutMark source).getD source)).length = 2 * n ∧
      Hex.decode (Utf8.encode ((withoutMark source).getD source)) = .ok value.toList := by
  unfold parse
  dsimp only
  split
  · rename_i length
    rw [and_iff_right length]
    split <;> rename_i read
    · simp [read, FixedBytes.ext_iff]
    · simp [read]
    · simp [read]
  · rename_i other
    exact iff_of_false (by rintro ⟨⟩) fun reads => other reads.1

theorem exists_parse_eq {source : String} {digits : List Char} (spells : Hex.Spells n source digits) :
    ∃ value : FixedBytes n, parse n source = .ok value ∧ value.toNat = Hex.spelled digits ∧
      value.text.toList = '0' :: 'x' :: digits.map Char.toLower := by
  obtain ⟨bytes, read, value, written⟩ := Hex.decodeFrom_digits spells.all spells.length 0
  have encoded : Utf8.encode ((withoutMark source).getD source) = digits.map Hex.byteOf := by
    rw [Utf8.encode, spells.unmarked, Hex.encode_digits spells.all]
  have length : bytes.length = n := by
    have halves := Hex.length_of_decode read
    rw [List.length_map, spells.length] at halves
    omega
  refine ⟨⟨bytes, length⟩, ?_, ?_, ?_⟩
  · rw [parse_eq_ok, encoded, List.length_map]
    exact ⟨spells.length, read⟩
  · rw [Hex.spelled_eq, ← value]
    rfl
  · rw [← written]
    simp [text, Hex.marked, Hex.text]

theorem exists_spells {source : String} {value : FixedBytes n} (read : parse n source = .ok value) :
    ∃ digits, Hex.Spells n source digits := by
  obtain ⟨length, decoded⟩ := parse_eq_ok.1 read
  have all : ∀ c ∈ ((withoutMark source).getD source).toList, Hex.IsDigit c := by
    intro c member
    apply Hex.isDigit_of_digitValue?
    intro b byte
    exact Hex.isSome_of_decodeFrom decoded b (List.mem_flatMap.2 ⟨c, member, byte⟩)
  rw [Utf8.encode, Hex.encode_digits all, List.length_map] at length
  exact ⟨_, all, length, Hex.toList_eq_or source⟩

/-- The text of a value is read as the value. -/
theorem parse_text (value : FixedBytes n) : parse n value.text = .ok value := by
  have spells := Hex.spells_marked value.toList
  rw [value.length_toList] at spells
  obtain ⟨other, read, same, _⟩ := exists_parse_eq spells
  rw [Hex.spelled_encode] at same
  rw [text, read, toNat_inj.1 same]

end FixedBytes

/-! ### Values -/

/-- How values of `n` bytes that stand for integers are written and read. -/
structure HexForm {α : Type} (n : Nat) (toNat : α → Nat) (text : α → String)
    (parse : String → Except HexTextFault α) : Prop where
  /-- Digits of either case are read as the integer that they spell, which is written in lower case. -/
  reads : ∀ source digits, Hex.Spells n source digits →
    ∃ value, parse source = .ok value ∧ toNat value = Hex.spelled digits ∧
      (text value).toList = '0' :: 'x' :: digits.map Char.toLower
  refuses : ∀ source, (¬∃ digits, Hex.Spells n source digits) →
    ∃ fault, parse source = .error fault ∧ (Error.params (.hex fault)).kind = .invalidParams
  readsBack : ∀ value, parse (text value) = .ok value

theorem FixedBytes.hexForm (n : Nat) : HexForm n FixedBytes.toNat FixedBytes.text (FixedBytes.parse n) where
  reads source digits spells := exists_parse_eq spells
  refuses source wrong := by
    cases read : parse n source with
    | error fault => exact ⟨fault, rfl, rfl⟩
    | ok value => exact absurd (exists_spells read) wrong
  readsBack := parse_text

namespace BlockNonce

/-- A nonce is the integer that its eight bytes spell. -/
theorem toNat_toBytes (nonce : BlockNonce) : (toBytes nonce).toNat = nonce.toNat := by
  rw [FixedBytes.toNat, toBytes, natBE_fixedBE, Nat.mod_eq_of_lt nonce.toNat_lt]

theorem toNat_ofBytes (bytes : FixedBytes 8) : (UInt64.ofNat bytes.toNat).toNat = bytes.toNat := by
  rw [UInt64.toNat_ofNat', Nat.mod_eq_of_lt bytes.toNat_lt]

theorem toBytes_ofBytes (bytes : FixedBytes 8) : toBytes (UInt64.ofNat bytes.toNat) = bytes := by
  rw [← FixedBytes.toNat_inj, toNat_toBytes, toNat_ofBytes]

theorem hexForm : HexForm 8 UInt64.toNat text parse where
  reads source digits spells := by
    obtain ⟨bytes, read, value, written⟩ := FixedBytes.exists_parse_eq spells
    refine ⟨UInt64.ofNat bytes.toNat, ?_, ?_, ?_⟩
    · rw [parse, read]
      rfl
    · rw [toNat_ofBytes, value]
    · rw [text, toBytes_ofBytes, written]
  refuses source wrong := by
    obtain ⟨fault, read, kind⟩ := (FixedBytes.hexForm 8).refuses source wrong
    refine ⟨fault, ?_, kind⟩
    rw [parse, read]
    rfl
  readsBack nonce := by
    rw [parse, text, FixedBytes.parse_text]
    refine congrArg Except.ok (UInt64.toNat_inj.1 ?_)
    rw [toNat_ofBytes, toNat_toBytes]

end BlockNonce

/-! ### JSON -/

namespace FixedBytes

variable {n : Nat}

/-- A JSON text holds a value. -/
def Holds (json : List UInt8) (value : FixedBytes n) : Prop :=
  ∃ content, Json.parse? json = some content ∧ ofJson n content = .ok value

theorem ofJson_eq_ok {content : Json} {value : FixedBytes n} :
    ofJson n content = .ok value ↔ ∃ source, content = .string source ∧ parse n source = .ok value := by
  cases content with
  | string source =>
      rw [ofJson]
      cases read : parse n source <;> simp [read]
  | _ => simp [ofJson]

end FixedBytes

/-- How values of `n` bytes are written and read as JSON. -/
structure JsonForm (n : Nat) : Prop where
  readsBack : ∀ value other : FixedBytes n,
    FixedBytes.Holds (Utf8.encode value.toJson.text) other ↔ other = value
  /-- A string is read as its text is, whatever the spelling of its characters, and nothing else is. -/
  reads : ∀ json (value : FixedBytes n), FixedBytes.Holds json value ↔
    ∃ source, Json.parse? json = some (.string source) ∧ FixedBytes.parse n source = .ok value

theorem FixedBytes.jsonForm (n : Nat) : JsonForm n where
  readsBack value other := by
    have content : Json.parse? (Utf8.encode value.toJson.text) = some (.string value.text) :=
      Json.parse?_stringText value.text
    constructor
    · rintro ⟨_, parsed, read⟩
      rw [content] at parsed
      cases parsed
      rw [ofJson, parse_text] at read
      cases read
      rfl
    · rintro rfl
      refine ⟨_, content, ?_⟩
      rw [ofJson, parse_text]
  reads json value := by
    constructor
    · rintro ⟨content, parsed, read⟩
      obtain ⟨source, rfl, same⟩ := ofJson_eq_ok.1 read
      exact ⟨source, parsed, same⟩
    · rintro ⟨source, parsed, same⟩
      exact ⟨_, parsed, ofJson_eq_ok.2 ⟨source, rfl, same⟩⟩

/-- Hashes, addresses and nonces are read from the texts of their digits and from nothing else, and are written
as texts from which they are read back; hashes and addresses also as JSON. -/
theorem hexText_exact :
    HexForm 32 FixedBytes.toNat FixedBytes.text (FixedBytes.parse 32) ∧
      HexForm 20 FixedBytes.toNat FixedBytes.text (FixedBytes.parse 20) ∧
      HexForm 8 UInt64.toNat BlockNonce.text BlockNonce.parse ∧ JsonForm 32 ∧ JsonForm 20 :=
  ⟨FixedBytes.hexForm 32, FixedBytes.hexForm 20, BlockNonce.hexForm, FixedBytes.jsonForm 32,
    FixedBytes.jsonForm 20⟩

end MiningPool
