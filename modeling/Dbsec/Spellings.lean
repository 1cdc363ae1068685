import Dbsec.Text

/-! Texts survive the spellings they are sent in: every text its UTF-8, every number its
decimal digits, every byte string its hexadecimal digits in either case. -/
namespace Dbsec.Spellings
open Framing Text

section Utf8

variable {value : Nat}

theorem byte_toNat (small : value < 256) : (UInt8.ofNat value).toNat = value := by
  rw [UInt8.toNat_ofNat', Nat.mod_eq_of_lt small]

variable {byte : UInt8}

theorem isTail_of_bits {code : Nat} (bits : byte.toNat = code % 64 + 0x80) :
    isTail byte = true ∧ tailBits byte = code % 64 := by
  constructor
  · simp only [isTail, Bool.and_eq_true, decide_eq_true_eq, UInt8.le_iff_toNat_le, bits,
      UInt8.reduceToNat]
    omega
  · rw [tailBits, bits]
    omega

variable {code : Nat} {lead second third fourth : UInt8} (rest : Bytes)

theorem decodeChar_two (low : 0x7F < code) (high : code ≤ 0x7FF)
    (leads : lead.toNat = code / 64 % 32 + 0xC0) (seconds : second.toNat = code % 64 + 0x80) :
    decodeChar lead (second :: rest) = (some (Char.ofNat code), rest) := by
  have notOne : ¬ lead ≤ 0x7F := by
    simp only [UInt8.le_iff_toNat_le, leads, UInt8.reduceToNat]
    omega
  have two : (0xC2 ≤ lead && lead ≤ 0xDF) = true := by
    simp only [Bool.and_eq_true, decide_eq_true_eq, UInt8.le_iff_toNat_le, leads, UInt8.reduceToNat]
    omega
  unfold decodeChar
  rw [if_neg notOne, if_pos two]
  simp only [isTail_of_bits seconds, leads, if_true]
  congr 3
  omega

theorem decodeChar_three (low : 0x7FF < code) (high : code ≤ 0xFFFF)
    (valid : code < 0xD800 ∨ 0xDFFF < code) (leads : lead.toNat = code / 4096 % 16 + 0xE0)
    (seconds : second.toNat = code / 64 % 64 + 0x80) (thirds : third.toNat = code % 64 + 0x80) :
    decodeChar lead (second :: third :: rest) = (some (Char.ofNat code), rest) := by
  have notOne : ¬ lead ≤ 0x7F := by
    simp only [UInt8.le_iff_toNat_le, leads, UInt8.reduceToNat]
    omega
  have notTwo : ¬ (0xC2 ≤ lead && lead ≤ 0xDF) = true := by
    simp only [Bool.and_eq_true, decide_eq_true_eq, UInt8.le_iff_toNat_le, leads, UInt8.reduceToNat]
    omega
  have three : (0xE0 ≤ lead && lead ≤ 0xEF) = true := by
    simp only [Bool.and_eq_true, decide_eq_true_eq, UInt8.le_iff_toNat_le, leads, UInt8.reduceToNat]
    omega
  have admitted : secondAdmitted lead second = true := by
    simp only [secondAdmitted, isTail, ← UInt8.toNat_inj, UInt8.le_iff_toNat_le, leads, seconds,
      UInt8.reduceToNat]
    repeat' split
    all_goals simp only [Bool.and_eq_true, decide_eq_true_eq]; omega
  unfold decodeChar
  rw [if_neg notOne, if_neg notTwo, if_pos three]
  simp only [admitted, isTail_of_bits thirds, (isTail_of_bits seconds).2, leads, if_true]
  congr 3
  omega

theorem decodeChar_four (low : 0xFFFF < code) (high : code < 0x110000)
    (leads : lead.toNat = code / 262144 % 8 + 0xF0)
    (seconds : second.toNat = code / 4096 % 64 + 0x80)
    (thirds : third.toNat = code / 64 % 64 + 0x80) (fourths : fourth.toNat = code % 64 + 0x80) :
    decodeChar lead (second :: third :: fourth :: rest) = (some (Char.ofNat code), rest) := by
  have notOne : ¬ lead ≤ 0x7F := by
    simp only [UInt8.le_iff_toNat_le, leads, UInt8.reduceToNat]
    omega
  have notTwo : ¬ (0xC2 ≤ lead && lead ≤ 0xDF) = true := by
    simp only [Bool.and_eq_true, decide_eq_true_eq, UInt8.le_iff_toNat_le, leads, UInt8.reduceToNat]
    omega
  have notThree : ¬ (0xE0 ≤ lead && lead ≤ 0xEF) = true := by
    simp only [Bool.and_eq_true, decide_eq_true_eq, UInt8.le_iff_toNat_le, leads, UInt8.reduceToNat]
    omega
  have four : (0xF0 ≤ lead && lead ≤ 0xF4) = true := by
    simp only [Bool.and_eq_true, decide_eq_true_eq, UInt8.le_iff_toNat_le, leads, UInt8.reduceToNat]
    omega
  have admitted : secondAdmitted lead second = true := by
    simp only [secondAdmitted, isTail, ← UInt8.toNat_inj, UInt8.le_iff_toNat_le, leads, seconds,
      UInt8.reduceToNat]
    repeat' split
    all_goals simp only [Bool.and_eq_true, decide_eq_true_eq]; omega
  unfold decodeChar
  rw [if_neg notOne, if_neg notTwo, if_neg notThree, if_pos four]
  simp only [admitted, isTail_of_bits thirds, isTail_of_bits fourths, (isTail_of_bits seconds).2,
    leads, if_true]
  congr 3
  omega

/-- The UTF-8 of a code point. -/
def spelledCode (value : Nat) : Bytes :=
  if value ≤ 0x7F then [UInt8.ofNat value]
  else if value ≤ 0x7FF then
    [UInt8.ofNat (value / 64 % 32 + 0xC0), UInt8.ofNat (value % 64 + 0x80)]
  else if value ≤ 0xFFFF then [UInt8.ofNat (value / 4096 % 16 + 0xE0),
    UInt8.ofNat (value / 64 % 64 + 0x80), UInt8.ofNat (value % 64 + 0x80)]
  else [UInt8.ofNat (value / 262144 % 8 + 0xF0), UInt8.ofNat (value / 4096 % 64 + 0x80),
    UInt8.ofNat (value / 64 % 64 + 0x80), UInt8.ofNat (value % 64 + 0x80)]

theorem encodeChar_eq (char : Char) : String.utf8EncodeChar char = spelledCode char.toNat := rfl

theorem decodeChar_encodeChar (char : Char) :
    ∃ lead more, String.utf8EncodeChar char = lead :: more ∧
      decodeChar lead (more ++ rest) = (some char, rest) := by
  have valid : char.toNat < 0xD800 ∨ 0xDFFF < char.toNat ∧ char.toNat < 0x110000 := char.valid
  have named : Char.ofNat char.toNat = char := Char.ofNat_toNat char
  rw [encodeChar_eq, spelledCode]
  split_ifs with one two three
  · have plain : isAscii char = true := by
      simp only [isAscii, decide_eq_true_eq]
      omega
    exact ⟨_, _, rfl, decodeChar_ascii plain _⟩
  · refine ⟨_, _, rfl, ?_⟩
    have read := @decodeChar_two char.toNat (UInt8.ofNat (char.toNat / 64 % 32 + 0xC0)) _ rest
      (by omega) two (byte_toNat (by omega)) (byte_toNat (by omega : char.toNat % 64 + 0x80 < 256))
    rw [named] at read
    exact read
  · refine ⟨_, _, rfl, ?_⟩
    have read := @decodeChar_three char.toNat (UInt8.ofNat (char.toNat / 4096 % 16 + 0xE0)) _ _
      rest (by omega) three (by omega) (byte_toNat (by omega))
      (byte_toNat (by omega : char.toNat / 64 % 64 + 0x80 < 256))
      (byte_toNat (by omega : char.toNat % 64 + 0x80 < 256))
    rw [named] at read
    exact read
  · refine ⟨_, _, rfl, ?_⟩
    have read := @decodeChar_four char.toNat (UInt8.ofNat (char.toNat / 262144 % 8 + 0xF0)) _ _ _
      rest (by omega) (by omega) (byte_toNat (by omega))
      (byte_toNat (by omega : char.toNat / 4096 % 64 + 0x80 < 256))
      (byte_toNat (by omega : char.toNat / 64 % 64 + 0x80 < 256))
      (byte_toNat (by omega : char.toNat % 64 + 0x80 < 256))
    rw [named] at read
    exact read

theorem decodeWithin_encode (text : List Char) (fuel : Nat) (enough : text.length ≤ fuel) :
    decodeWithin fuel (encode text) = text.map some := by
  induction text generalizing fuel with
  | nil => cases fuel <;> rfl
  | cons char rest ih =>
    cases fuel with
    | zero => cases enough
    | succ fuel =>
      obtain ⟨lead, more, spelled, read⟩ := decodeChar_encodeChar (encode rest) char
      have split : encode (char :: rest) = lead :: (more ++ encode rest) := by
        simp [encode, spelled]
      rw [split, decodeWithin, read]
      exact congrArg (some char :: ·) (ih fuel (Nat.le_of_succ_le_succ enough))

theorem length_le_encode (text : List Char) : text.length ≤ (encode text).length := by
  induction text with
  | nil => exact Nat.le_refl _
  | cons char rest ih =>
    obtain ⟨lead, more, spelled, _⟩ := decodeChar_encodeChar [] char
    have split : encode (char :: rest) = lead :: (more ++ encode rest) := by
      simp [encode, spelled]
    rw [split]
    simp only [List.length_cons, List.length_append]
    omega

theorem decode_encode (text : List Char) : decode (encode text) = some text := by
  rw [decode, decodeWithin_encode text _ (length_le_encode text), List.mapM_map]
  exact List.mapM_pure.trans (congrArg some (List.map_id text))

theorem byte_of_toNat (same : byte.toNat = value) : byte = UInt8.ofNat value := by
  rw [← same, UInt8.ofNat_toNat]

theorem tail_bits (tail : isTail byte = true) :
    byte.toNat = tailBits byte + 0x80 ∧ tailBits byte < 64 := by
  simp only [isTail, Bool.and_eq_true, decide_eq_true_eq, UInt8.le_iff_toNat_le,
    UInt8.reduceToNat] at tail
  rw [tailBits]
  omega

theorem admitted_bits (admitted : secondAdmitted lead second = true) :
    isTail second = true ∧ (lead.toNat = 0xE0 → 0xA0 ≤ second.toNat) ∧
      (lead.toNat = 0xED → second.toNat ≤ 0x9F) ∧ (lead.toNat = 0xF0 → 0x90 ≤ second.toNat) ∧
      (lead.toNat = 0xF4 → second.toNat ≤ 0x8F) := by
  simp only [secondAdmitted, isTail, ← UInt8.toNat_inj, UInt8.le_iff_toNat_le,
    UInt8.reduceToNat] at admitted ⊢
  split_ifs at admitted <;> simp only [Bool.and_eq_true, decide_eq_true_eq] at admitted ⊢ <;> omega

theorem encodeChar_ofNat (valid : value < 0xD800 ∨ 0xDFFF < value ∧ value < 0x110000) :
    String.utf8EncodeChar (Char.ofNat value) = spelledCode value := by
  rw [encodeChar_eq, Char.toNat_ofNat, if_pos valid]

variable {bytes : Bytes}

theorem encodeChar_decodeChar {after : Bytes} {char : Char}
    (read : decodeChar lead bytes = (some char, after)) :
    lead :: bytes = String.utf8EncodeChar char ++ after := by
  unfold decodeChar at read
  repeat' split at read
  -- Four branches read a character, one for each length of its UTF-8.
  all_goals try (cases read; done)
  all_goals cases read
  · rename_i one
    simp only [UInt8.le_iff_toNat_le, UInt8.reduceToNat] at one
    rw [encodeChar_ofNat (by omega), spelledCode, if_pos one, ← byte_of_toNat rfl]
    rfl
  · rename_i notOne two _ second tail
    simp only [Bool.and_eq_true, decide_eq_true_eq, UInt8.le_iff_toNat_le,
      UInt8.reduceToNat] at notOne two
    obtain ⟨seconds, small⟩ := tail_bits tail
    rw [encodeChar_ofNat (by omega), spelledCode, if_neg (by omega), if_pos (by omega),
      ← byte_of_toNat (by omega : lead.toNat = _), ← byte_of_toNat (by omega : second.toNat = _)]
    rfl
  · rename_i notOne notTwo three _ second admitted _ third last
    simp only [Bool.and_eq_true, decide_eq_true_eq, UInt8.le_iff_toNat_le,
      UInt8.reduceToNat] at notOne notTwo three
    obtain ⟨tail, overlong, surrogate, _, _⟩ := admitted_bits admitted
    obtain ⟨seconds, small⟩ := tail_bits tail
    obtain ⟨thirds, smaller⟩ := tail_bits last
    rw [encodeChar_ofNat (by omega), spelledCode, if_neg (by omega), if_neg (by omega),
      if_pos (by omega), ← byte_of_toNat (by omega : lead.toNat = _),
      ← byte_of_toNat (by omega : second.toNat = _), ← byte_of_toNat (by omega : third.toNat = _)]
    rfl
  · rename_i notOne notTwo notThree four _ second admitted _ third more _ fourth last
    simp only [Bool.and_eq_true, decide_eq_true_eq, UInt8.le_iff_toNat_le,
      UInt8.reduceToNat] at notOne notTwo notThree four
    obtain ⟨tail, _, _, overlong, past⟩ := admitted_bits admitted
    obtain ⟨seconds, small⟩ := tail_bits tail
    obtain ⟨thirds, smaller⟩ := tail_bits more
    obtain ⟨fourths, smallest⟩ := tail_bits last
    rw [encodeChar_ofNat (by omega), spelledCode, if_neg (by omega), if_neg (by omega),
      if_neg (by omega), ← byte_of_toNat (by omega : lead.toNat = _),
      ← byte_of_toNat (by omega : second.toNat = _), ← byte_of_toNat (by omega : third.toNat = _),
      ← byte_of_toNat (by omega : fourth.toNat = _)]
    rfl

variable {text : List Char}

theorem mapM_id_cons {char : Option Char} {chars : List (Option Char)}
    (read : (char :: chars).mapM id = some text) :
    ∃ first rest, char = some first ∧ chars.mapM id = some rest ∧ text = first :: rest := by
  simp only [List.mapM_cons, id_eq, Option.bind_eq_bind, Option.bind_eq_some_iff, Option.pure_def,
    Option.some.injEq] at read
  obtain ⟨first, here, rest, there, rfl⟩ := read
  exact ⟨first, rest, here, there, rfl⟩

theorem encode_decodeWithin {fuel : Nat} (enough : bytes.length ≤ fuel)
    (read : (decodeWithin fuel bytes).mapM id = some text) : encode text = bytes := by
  induction fuel generalizing bytes text with
  | zero =>
    cases bytes with
    | nil =>
      cases read
      rfl
    | cons lead rest => cases enough
  | succ fuel ih =>
    cases bytes with
    | nil =>
      cases read
      rfl
    | cons lead rest =>
      rw [decodeWithin] at read
      cases step : decodeChar lead rest with
      | mk char after =>
        rw [step] at read
        obtain ⟨first, others, rfl, later, rfl⟩ := mapM_id_cons read
        have spelled := encodeChar_decodeChar step
        have shorter : after.length ≤ fuel := by
          have sizes := congrArg List.length spelled
          rw [List.length_append, List.length_cons, String.length_utf8EncodeChar] at sizes
          have positive := Char.utf8Size_pos first
          rw [List.length_cons] at enough
          omega
        rw [spelled, ← ih shorter later]
        rfl

theorem encode_decode (read : decode bytes = some text) : encode text = bytes :=
  encode_decodeWithin (Nat.le_refl _) read

theorem encode_inj {left right : List Char} : encode left = encode right ↔ left = right := by
  constructor
  · intro same
    have read := decode_encode left
    rw [same, decode_encode right] at read
    exact (Option.some.inj read).symm
  · rintro rfl
    rfl

end Utf8

section Decimals

theorem decimal_renderNat (value : Nat) : decimal (renderNat value) = value := by
  rw [renderNat, Nat.toList_repr]
  have digits := @Nat.ofDigitChars_toDigits 10 value (by decide) (by decide)
  rw [Nat.ofDigitChars_eq_foldl] at digits
  simpa [decimal, Nat.mul_comm] using digits

theorem renderNat_digits (value : Nat) :
    renderNat value ≠ [] ∧ (renderNat value).all isDigit = true := by
  rw [renderNat, Nat.toList_repr]
  refine ⟨Nat.toDigits_ne_nil, ?_⟩
  rw [List.all_eq_true]
  intro char listed
  have digit := Nat.isDigit_of_mem_toDigits (by decide) (by decide) listed
  simpa [Char.isDigit, isDigit, Char.le_def] using digit

theorem parseDigits_renderNat (value : Nat) : parseDigits (renderNat value) = some value := by
  rw [parseDigits, if_pos (renderNat_digits value), decimal_renderNat]

theorem digit_bounds {char : Char} (digit : isDigit char = true) :
    48 ≤ char.toNat ∧ char.toNat ≤ 57 := by
  simpa [isDigit, Char.le_def, UInt32.le_iff_toNat_le] using digit

theorem parseSigned_renderInt {width : Nat} {value : Int}
    (fits : -(2 ^ (width - 1) : Int) ≤ value ∧ value < 2 ^ (width - 1)) :
    parseSigned width (renderInt value) = some value := by
  cases value with
  | negSucc magnitude =>
    simp only [renderInt, parseSigned, parseDigits_renderNat, Option.bind_eq_bind,
      Option.bind_some]
    exact if_pos fits
  | ofNat magnitude =>
    have unsigned : parseSigned width (renderNat magnitude) =
        (parseDigits (renderNat magnitude)).bind fun value =>
          if -(2 ^ (width - 1) : Int) ≤ value ∧ (value : Int) < 2 ^ (width - 1) then
            some (value : Int) else none := by
      obtain ⟨nonempty, digits⟩ := renderNat_digits magnitude
      cases spelled : renderNat magnitude with
      | nil => exact absurd spelled nonempty
      | cons first rest =>
        rw [spelled, List.all_cons, Bool.and_eq_true] at digits
        have bounds := digit_bounds digits.1
        have notMinus : first ≠ '-' := by
          rintro rfl
          exact absurd bounds (by decide)
        have notPlus : first ≠ '+' := by
          rintro rfl
          exact absurd bounds (by decide)
        simp only [parseSigned]
        split
        · rename_i same
          cases same
          exact absurd rfl notMinus
        · rename_i same
          cases same
          exact absurd rfl notPlus
        · cases parseDigits (first :: rest) <;> rfl
    rw [renderInt, unsigned, parseDigits_renderNat]
    exact if_pos fits

theorem renderInt_inj {left right : Int} (same : renderInt left = renderInt right) :
    left = right := by
  have fits : ∀ value : Int, ∃ width : Nat, ∀ more, width ≤ more →
      -(2 ^ (more - 1) : Int) ≤ value ∧ value < 2 ^ (more - 1) := by
    intro value
    refine ⟨value.natAbs + 1, fun more enough => ?_⟩
    have big : (value.natAbs : Int) < 2 ^ (more - 1) := by
      have small : value.natAbs < 2 ^ value.natAbs := Nat.lt_two_pow_self
      have grows : 2 ^ value.natAbs ≤ 2 ^ (more - 1) := Nat.pow_le_pow_right (by decide) (by omega)
      exact_mod_cast Nat.lt_of_lt_of_le small grows
    omega
  obtain ⟨first, firstFits⟩ := fits left
  obtain ⟨second, secondFits⟩ := fits right
  have readLeft := parseSigned_renderInt (firstFits (max first second) (Nat.le_max_left _ _))
  have readRight := parseSigned_renderInt (secondFits (max first second) (Nat.le_max_right _ _))
  rw [same, readRight] at readLeft
  exact (Option.some.inj readLeft).symm

end Decimals

section Hexadecimals

theorem lower_of_hexValue {char : Char} {value : Nat} (read : hexValue char = some value) :
    value < 16 ∧ asciiLower char = hexDigit value := by
  have bounds : ∀ {low high : Char}, low ≤ char ∧ char ≤ high →
      low.toNat ≤ char.toNat ∧ char.toNat ≤ high.toNat := by
    intro low high within
    exact ⟨UInt32.le_iff_toNat_le.mp (Char.le_def.mp within.1),
      UInt32.le_iff_toNat_le.mp (Char.le_def.mp within.2)⟩
  have named : Char.ofNat char.toNat = char := Char.ofNat_toNat char
  have kept : ¬ ('A' ≤ char ∧ char ≤ 'Z') → asciiLower char = char := fun outside => if_neg outside
  unfold hexValue at read
  split at read
  · rename_i decimal
    have range : 48 ≤ char.toNat ∧ char.toNat ≤ 57 := bounds decimal
    cases read
    refine ⟨by omega, ?_⟩
    have outside : ¬ ('A' ≤ char ∧ char ≤ 'Z') := by
      intro letter
      have upper : 65 ≤ char.toNat ∧ char.toNat ≤ 90 := bounds letter
      omega
    rw [kept outside, hexDigit, if_pos (by omega),
      show 48 + (char.toNat - 48) = char.toNat by omega, named]
  · split at read
    · rename_i lower
      have range : 97 ≤ char.toNat ∧ char.toNat ≤ 102 := bounds lower
      cases read
      refine ⟨by omega, ?_⟩
      have outside : ¬ ('A' ≤ char ∧ char ≤ 'Z') := by
        intro letter
        have upper : 65 ≤ char.toNat ∧ char.toNat ≤ 90 := bounds letter
        omega
      rw [kept outside, hexDigit, if_neg (by omega),
        show 87 + (char.toNat - 87) = char.toNat by omega, named]
    · split at read
      · rename_i upper
        have range : 65 ≤ char.toNat ∧ char.toNat ≤ 70 := bounds upper
        cases read
        refine ⟨by omega, ?_⟩
        have letter : 'A' ≤ char ∧ char ≤ 'Z' :=
          ⟨upper.1, Char.le_def.mpr (UInt32.le_iff_toNat_le.mpr (show char.toNat ≤ 90 by omega))⟩
        rw [asciiLower, if_pos letter, hexDigit, if_neg (by omega),
          show 87 + (char.toNat - 55) = char.toNat + 32 by omega]
      · cases read

theorem hexDecode_iff {digits : List Char} {bytes : Bytes} :
    hexDecode digits = some bytes ↔
      (∀ digit ∈ digits, (hexValue digit).isSome = true) ∧
        digits.map asciiLower = hexEncode bytes := by
  constructor
  · intro read
    fun_induction hexDecode digits generalizing bytes with
    | case1 =>
      cases read
      simp [hexEncode]
    | case2 => cases read
    | case3 high low rest ih =>
      simp only [Option.bind_eq_bind, Option.bind_eq_some_iff, Option.pure_def,
        Option.some.injEq] at read
      obtain ⟨upper, first, lower, second, tail, others, rfl⟩ := read
      obtain ⟨hexes, written⟩ := ih others
      obtain ⟨upperSmall, upperWritten⟩ := lower_of_hexValue first
      obtain ⟨lowerSmall, lowerWritten⟩ := lower_of_hexValue second
      have whole : (UInt8.ofNat (upper * 16 + lower)).toNat = upper * 16 + lower :=
        byte_toNat (by omega)
      constructor
      · intro digit listed
        rcases List.mem_cons.mp listed with rfl | listed
        · rw [first]
          rfl
        · rcases List.mem_cons.mp listed with rfl | listed
          · rw [second]
            rfl
          · exact hexes digit listed
      · have split : hexEncode (UInt8.ofNat (upper * 16 + lower) :: tail) =
            hexDigit upper :: hexDigit lower :: hexEncode tail := by
          simp only [hexEncode, List.flatMap_cons, whole, List.cons_append, List.nil_append]
          rw [show (upper * 16 + lower) / 16 = upper by omega,
            show (upper * 16 + lower) % 16 = lower by omega]
        rw [split, List.map_cons, List.map_cons, upperWritten, lowerWritten, written]
  · rintro ⟨hexes, written⟩
    -- The case of a digit does not change its value.
    have lowered : hexDecode digits = hexDecode (digits.map asciiLower) := by
      clear written
      fun_induction hexDecode digits with
      | case1 => rfl
      | case2 => rfl
      | case3 high low rest ih =>
        obtain ⟨upper, first⟩ := Option.isSome_iff_exists.mp (hexes high List.mem_cons_self)
        obtain ⟨lower, second⟩ := Option.isSome_iff_exists.mp
          (hexes low (List.mem_cons_of_mem _ List.mem_cons_self))
        obtain ⟨upperSmall, upperWritten⟩ := lower_of_hexValue first
        obtain ⟨lowerSmall, lowerWritten⟩ := lower_of_hexValue second
        simp only [List.map_cons, hexDecode, first, second, upperWritten, lowerWritten,
          hexValue_hexDigit upperSmall, hexValue_hexDigit lowerSmall,
          ih fun digit listed =>
            hexes digit (List.mem_cons_of_mem _ (List.mem_cons_of_mem _ listed))]
    rw [lowered, written, hexDecode_hexEncode]

theorem hexEncode_length (bytes : Bytes) : (hexEncode bytes).length = 2 * bytes.length := by
  induction bytes with
  | nil => rfl
  | cons byte rest ih =>
    simp only [hexEncode, List.flatMap_cons, List.length_append, List.length_cons,
      List.length_nil] at ih ⊢
    omega

theorem hexEncode_inj {left right : Bytes} (same : hexEncode left = hexEncode right) :
    left = right := by
  have read := hexDecode_hexEncode left
  rw [same, hexDecode_hexEncode] at read
  exact (Option.some.inj read).symm

end Hexadecimals

end Dbsec.Spellings
