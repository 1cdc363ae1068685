import Dbsec.Framing

/-! Text as character lists: UTF-8, ASCII case, whitespace, hexadecimal and decimal
spellings. Decoding follows the table of well-formed byte sequences; the lossy form
replaces each maximal ill-formed run by U+FFFD. Everything computes on lists, so a
closed text can be evaluated inside a proof. -/
namespace Dbsec.Text
open Framing

def encode (text : List Char) : Bytes := text.flatMap String.utf8EncodeChar

def isTail (byte : UInt8) : Bool := 0x80 ≤ byte && byte ≤ 0xBF

/-- The second bytes a lead byte of three or four admits: this excludes overlong
forms, surrogates and everything past U+10FFFF. -/
def secondAdmitted (lead second : UInt8) : Bool :=
  if lead = 0xE0 then 0xA0 ≤ second && second ≤ 0xBF
  else if lead = 0xED then 0x80 ≤ second && second ≤ 0x9F
  else if lead = 0xF0 then 0x90 ≤ second && second ≤ 0xBF
  else if lead = 0xF4 then 0x80 ≤ second && second ≤ 0x8F
  else isTail second

def tailBits (byte : UInt8) : Nat := byte.toNat % 64

/-- The character the bytes start with, if they start with one, and what is left. -/
def decodeChar (lead : UInt8) (rest : Bytes) : Option Char × Bytes :=
  if lead ≤ 0x7F then (some (Char.ofNat lead.toNat), rest)
  else if 0xC2 ≤ lead && lead ≤ 0xDF then
    match rest with
    | second :: after =>
      if isTail second then
        (some (Char.ofNat ((lead.toNat - 0xC0) * 64 + tailBits second)), after)
      else (none, rest)
    | [] => (none, rest)
  else if 0xE0 ≤ lead && lead ≤ 0xEF then
    match rest with
    | second :: after =>
      if secondAdmitted lead second then
        match after with
        | third :: last =>
          if isTail third then
            (some (Char.ofNat ((lead.toNat - 0xE0) * 4096 + tailBits second * 64 +
              tailBits third)), last)
          else (none, after)
        | [] => (none, after)
      else (none, rest)
    | [] => (none, rest)
  else if 0xF0 ≤ lead && lead ≤ 0xF4 then
    match rest with
    | second :: after =>
      if secondAdmitted lead second then
        match after with
        | third :: more =>
          if isTail third then
            match more with
            | fourth :: last =>
              if isTail fourth then
                (some (Char.ofNat ((lead.toNat - 0xF0) * 262144 + tailBits second * 4096 +
                  tailBits third * 64 + tailBits fourth)), last)
              else (none, more)
            | [] => (none, more)
          else (none, after)
        | [] => (none, after)
      else (none, rest)
    | [] => (none, rest)
  else (none, rest)

def decodeWithin : Nat → Bytes → List (Option Char)
  | 0, _ => []
  | _ + 1, [] => []
  | fuel + 1, lead :: rest =>
    let (char, after) := decodeChar lead rest
    char :: decodeWithin fuel after

def decode (bytes : Bytes) : Option (List Char) := (decodeWithin bytes.length bytes).mapM id

def decodeLossy (bytes : Bytes) : List Char :=
  (decodeWithin bytes.length bytes).map (·.getD '�')

def asciiLower (char : Char) : Char :=
  if 'A' ≤ char ∧ char ≤ 'Z' then Char.ofNat (char.toNat + 32) else char

def equalIgnoringCase (left right : List Char) : Bool :=
  left.map asciiLower == right.map asciiLower

def isWhitespace (char : Char) : Bool :=
  let code := char.toNat
  (0x09 ≤ code && code ≤ 0x0D) || code == 0x20 || code == 0x85 || code == 0xA0 || code == 0x1680 ||
    (0x2000 ≤ code && code ≤ 0x200A) || code == 0x2028 || code == 0x2029 || code == 0x202F ||
    code == 0x205F || code == 0x3000

def trimEnd (drops : Char → Bool) (text : List Char) : List Char :=
  (text.reverse.dropWhile drops).reverse

def trim (text : List Char) : List Char := trimEnd isWhitespace (text.dropWhile isWhitespace)

def isAsciiWhitespace (byte : UInt8) : Bool :=
  byte == 0x20 || byte == 0x09 || byte == 0x0A || byte == 0x0C || byte == 0x0D

def isDigit (char : Char) : Bool := '0' ≤ char && char ≤ '9'

def hexValue (char : Char) : Option Nat :=
  if '0' ≤ char ∧ char ≤ '9' then some (char.toNat - 48)
  else if 'a' ≤ char ∧ char ≤ 'f' then some (char.toNat - 87)
  else if 'A' ≤ char ∧ char ≤ 'F' then some (char.toNat - 55)
  else none

def hexDigit (value : Nat) : Char := Char.ofNat (if value < 10 then 48 + value else 87 + value)

def hexEncode (bytes : Bytes) : List Char :=
  bytes.flatMap fun byte => [hexDigit (byte.toNat / 16), hexDigit (byte.toNat % 16)]

def hexDecode : List Char → Option Bytes
  | [] => some []
  | [_] => none
  | high :: low :: rest => do
      let upper ← hexValue high
      let lower ← hexValue low
      return UInt8.ofNat (upper * 16 + lower) :: (← hexDecode rest)

def decimal (digits : List Char) : Nat :=
  digits.foldl (fun value digit => value * 10 + (digit.toNat - 48)) 0

def parseDigits (digits : List Char) : Option Nat :=
  if digits ≠ [] ∧ digits.all isDigit then some (decimal digits) else none

/-- An unsigned number up to `bound`: digits with an optional plus sign. -/
def parseUnsigned (bound : Nat) (text : List Char) : Option Nat := do
  let digits := if text.head? = some '+' then text.tail else text
  let value ← parseDigits digits
  if value ≤ bound then some value else none

/-- A signed number of `width` bits: digits with an optional sign. -/
def parseSigned (width : Nat) (text : List Char) : Option Int := do
  let value : Int ← match text with
    | '-' :: digits => (parseDigits digits).map fun value => -(value : Int)
    | '+' :: digits => (parseDigits digits).map Int.ofNat
    | digits => (parseDigits digits).map Int.ofNat
  if -(2 ^ (width - 1) : Int) ≤ value ∧ value < 2 ^ (width - 1) then some value else none

def renderNat (value : Nat) : List Char := (Nat.repr value).toList

def renderInt : Int → List Char
  | .ofNat value => renderNat value
  | .negSucc value => '-' :: renderNat (value + 1)

theorem hexValue_hexDigit {value : Nat} (digit : value < 16) :
    hexValue (hexDigit value) = some value := by
  have each : ∀ value : Fin 16, hexValue (hexDigit value.val) = some value.val := by decide
  exact each ⟨value, digit⟩

theorem hexDecode_hexEncode (bytes : Bytes) : hexDecode (hexEncode bytes) = some bytes := by
  induction bytes with
  | nil => rfl
  | cons byte rest ih =>
    have upper := hexValue_hexDigit (show byte.toNat / 16 < 16 by have := byte.toNat_lt; omega)
    have lower := hexValue_hexDigit (Nat.mod_lt byte.toNat (show 0 < 16 by decide))
    change hexDecode
      (hexDigit (byte.toNat / 16) :: hexDigit (byte.toNat % 16) :: hexEncode rest) = _
    simp only [hexDecode, upper, lower, ih, Option.bind_eq_bind, Option.bind_some, Option.pure_def,
      Nat.div_add_mod', UInt8.ofNat_toNat]

def isAscii (char : Char) : Bool := char.toNat < 128

theorem hexEncode_all {holds : Char → Bool}
    (each : ∀ value : Fin 16, holds (hexDigit value.val) = true)
    (bytes : Bytes) : (hexEncode bytes).all holds = true := by
  induction bytes with
  | nil => rfl
  | cons byte rest ih =>
    have bounded := byte.toNat_lt
    have upper := each ⟨byte.toNat / 16, by omega⟩
    have lower := each ⟨byte.toNat % 16, by omega⟩
    change (holds (hexDigit (byte.toNat / 16)) && (holds (hexDigit (byte.toNat % 16)) &&
      (hexEncode rest).all holds)) = true
    rw [upper, lower, ih]
    rfl

theorem hexEncode_ascii (bytes : Bytes) : (hexEncode bytes).all isAscii = true :=
  hexEncode_all (by decide) bytes

theorem encodeChar_ascii {char : Char} (ascii : isAscii char = true) :
    String.utf8EncodeChar char = [UInt8.ofNat char.toNat] := by
  simp only [isAscii, decide_eq_true_eq] at ascii
  have small : char.toNat ≤ 127 := by omega
  simp [String.utf8EncodeChar, Nat.not_lt.mpr small]

theorem decodeChar_ascii {char : Char} (ascii : isAscii char = true) (rest : Bytes) :
    decodeChar (UInt8.ofNat char.toNat) rest = (some char, rest) := by
  simp only [isAscii, decide_eq_true_eq] at ascii
  have same : (UInt8.ofNat char.toNat).toNat = char.toNat := by
    rw [UInt8.toNat_ofNat', Nat.mod_eq_of_lt (by omega)]
  have small : UInt8.ofNat char.toNat ≤ 0x7F := by
    rw [UInt8.le_iff_toNat_le, same]
    exact Nat.le_of_lt_succ ascii
  simp only [decodeChar, small, if_true, same, Char.ofNat_toNat]

variable {text : List Char}

theorem encode_length_of_ascii (ascii : text.all isAscii = true) :
    (encode text).length = text.length := by
  induction text with
  | nil => rfl
  | cons char rest ih =>
    rw [List.all_cons, Bool.and_eq_true] at ascii
    simp only [encode, List.flatMap_cons, encodeChar_ascii ascii.1] at ih ⊢
    simp [ih ascii.2]

theorem decode_encode_of_ascii (ascii : text.all isAscii = true) :
    decode (encode text) = some text := by
  have each : decodeWithin text.length (encode text) = text.map some := by
    induction text with
    | nil => rfl
    | cons char rest ih =>
      rw [List.all_cons, Bool.and_eq_true] at ascii
      have head : encode (char :: rest) = UInt8.ofNat char.toNat :: encode rest := by
        simp [encode, encodeChar_ascii ascii.1]
      simp only [head, List.length_cons, decodeWithin, decodeChar_ascii ascii.1, ih ascii.2,
        List.map_cons]
  rw [decode, encode_length_of_ascii ascii, each, List.mapM_map]
  exact List.mapM_pure.trans (congrArg some (List.map_id text))

theorem encode_length_le (text : List Char) : (encode text).length ≤ 4 * text.length := by
  induction text with
  | nil => simp [encode]
  | cons char rest ih =>
    have size : (String.utf8EncodeChar char).length ≤ 4 := by
      rw [String.length_utf8EncodeChar]
      exact Char.utf8Size_le_four char
    simp only [encode, List.flatMap_cons, List.length_append, List.length_cons] at ih ⊢
    omega

theorem decodeWithin_length_le (fuel : Nat) (bytes : Bytes) :
    (decodeWithin fuel bytes).length ≤ fuel := by
  induction fuel generalizing bytes with
  | zero => simp [decodeWithin]
  | succ fuel ih =>
    cases bytes with
    | nil => simp [decodeWithin]
    | cons lead rest =>
      have tail := ih (decodeChar lead rest).2
      simp only [decodeWithin, List.length_cons]
      omega

theorem mapM_id_length {chars : List (Option Char)} (all : chars.mapM id = some text) :
    text.length = chars.length := by
  induction chars generalizing text with
  | nil =>
    cases all
    rfl
  | cons char rest ih =>
    cases char with
    | none => simp at all
    | some value =>
      simp only [List.mapM_cons, id_eq, Option.bind_eq_bind, Option.bind_some,
        Option.bind_eq_some_iff, Option.pure_def, Option.some.injEq] at all
      obtain ⟨tail, read, rfl⟩ := all
      simp [ih read]

theorem decode_length_le {bytes : Bytes} (read : decode bytes = some text) :
    text.length ≤ bytes.length := by
  rw [mapM_id_length read]
  exact decodeWithin_length_le _ _

end Dbsec.Text
