import Dbsec.Literals
import Dbsec.RowKeys

/-! The array parameter of `col = ANY($n)`, proxy/src/encrypt/array.rs: decoded in the
wire format it came in, every element replaced by its blind index, and encoded again as
`bytea[]`. The binary form is `ndim | flags | element oid`, a length and a lower bound
for the one dimension, then each element as a length and its bytes, -1 for NULL. -/
namespace Dbsec.ArrayParam
open Framing Params Literals

def byteaOid : Int := 17

/-- Element types whose binary form is the plaintext itself. -/
def indexableElementOids : List Int := [byteaOid, 19, 25, 705, 1042, 1043]

def maxArrayElements : Nat := 65536

structure BoundArray where
  /-- `none` for a NULL element. -/
  elements : List (Option Bytes)
  lowerBound : Int
  deriving DecidableEq

def beInt (value : Int) : Bytes := be32 (value % 2 ^ 32).toNat

def takeInt (raw : Bytes) : Option (Int × Bytes) :=
  if raw.length < 4 then none else some (RowKeys.signedBe (raw.take 4), raw.drop 4)

def takeElements : Nat → Bytes → Option (List (Option Bytes) × Bytes)
  | 0, raw => some ([], raw)
  | count + 1, raw => do
      let (size, raw) ← takeInt raw
      if size = -1 then
        let (elements, raw) ← takeElements count raw
        return (none :: elements, raw)
      else if size < 0 ∨ raw.length < size.toNat then none
      else
        let (elements, rest) ← takeElements count (raw.drop size.toNat)
        return (some (raw.take size.toNat) :: elements, rest)

def decodeBinaryArray (raw : Bytes) : Option BoundArray := do
  let (dimensions, raw) ← takeInt raw
  let (_, raw) ← takeInt raw
  let (elementOid, raw) ← takeInt raw
  if !indexableElementOids.contains elementOid then none
  else if dimensions = 0 then if raw.isEmpty then some ⟨[], 1⟩ else none
  else if dimensions ≠ 1 then none
  else do
    let (count, raw) ← takeInt raw
    let (lowerBound, raw) ← takeInt raw
    if count < 0 ∨ maxArrayElements < count.toNat then none
    else do
      let (elements, rest) ← takeElements count.toNat raw
      if rest.isEmpty then some ⟨elements, lowerBound⟩ else none

def encodeElements : List (Option Bytes) → Bytes
  | [] => []
  | none :: rest => beInt (-1) ++ encodeElements rest
  | some token :: rest => beInt token.length ++ token ++ encodeElements rest

def encodeBinaryArray (elements : List (Option Bytes)) (lowerBound : Int) : Option Bytes :=
  if elements.length < 2 ^ 31 ∧ ∀ token ∈ elements.flatMap Option.toList, token.length < 2 ^ 31 then
    let header := beInt (if elements.isEmpty then 0 else 1) ++
      beInt (if elements.any Option.isNone then 1 else 0) ++ beInt byteaOid
    some (if elements.isEmpty then header
      else header ++ beInt elements.length ++ beInt lowerBound ++ encodeElements elements)
  else none

section TextForm

def skipWhitespace : Bytes → Bytes := List.dropWhile Text.isAsciiWhitespace

/-- The bytes of a quoted element and what follows its closing quote. -/
def quotedBytes : Bytes → Option (Bytes × Bytes)
  | [] => none
  | byte :: rest =>
    if byte = 0x5C then
      match rest with
      | [] => none
      | escaped :: rest => (quotedBytes rest).map fun read => (escaped :: read.1, read.2)
    else if byte = 0x22 then some ([], rest)
    else (quotedBytes rest).map fun read => (byte :: read.1, read.2)

/-- The bytes of a bare element up to its comma, each with whether it was escaped. -/
def unquotedBytes : Bytes → Option (List (UInt8 × Bool) × Bytes)
  | [] => some ([], [])
  | byte :: rest =>
    if byte = 0x2C then some ([], byte :: rest)
    else if byte = 0x5C then
      match rest with
      | [] => none
      | escaped :: rest => (unquotedBytes rest).map fun read => ((escaped, true) :: read.1, read.2)
    -- An unescaped brace is a nested array.
    else if byte = 0x7B ∨ byte = 0x7D then none
    else (unquotedBytes rest).map fun read => ((byte, false) :: read.1, read.2)

def trimUnescaped (read : List (UInt8 × Bool)) : List (UInt8 × Bool) :=
  (read.reverse.dropWhile fun entry => !entry.2 && Text.isAsciiWhitespace entry.1).reverse

def textElement (raw : Bytes) : Option (Option (List Char) × Bytes) :=
  if raw.head? = some 0x22 then do
    let (bytes, rest) ← quotedBytes raw.tail
    return (some (← Text.decode bytes), rest)
  else do
    let (read, rest) ← unquotedBytes raw
    let text ← Text.decode ((trimUnescaped read).map Prod.fst)
    let isNull := !read.any Prod.snd && Text.equalIgnoringCase text "null".toList
    return (if isNull then none else some text, rest)

def textElements : Nat → Bytes → Option (List (Option (List Char)))
  | 0, _ => none
  | fuel + 1, raw => do
      let (element, rest) ← textElement (skipWhitespace raw)
      match skipWhitespace rest with
      | [] => return [element]
      | byte :: rest => if byte = 0x2C then return element :: (← textElements fuel rest) else none

def braced (text : List Char) : Option (List Char) :=
  match text with
  | '\x7b' :: rest => if rest.getLast? = some '\x7d' then some rest.dropLast else none
  | _ => none

def decodeTextArray (raw : Bytes) (wire : WireForm) : Option BoundArray := do
  let body ← braced (Text.trim (← Text.decode raw))
  if (Text.trim body).isEmpty then some ⟨[], 1⟩
  else do
    let bytes := Text.encode body
    let elements ← textElements (bytes.length + 1) bytes
    if maxArrayElements < elements.length then none
    else some ⟨elements.map (Option.map fun text => textPlaintext text wire), 1⟩

def encodeTextArray (elements : List (Option Bytes)) : Bytes :=
  let one : Option Bytes → List Char
    | none => "NULL".toList
    | some token => '"' :: '\\' :: '\\' :: 'x' :: Text.hexEncode token ++ ['"']
  Text.encode ("\x7b".toList ++ [','].intercalate (elements.map one) ++ "\x7d".toList)

end TextForm

/-- The blind index of every element; `none` where one has no index. -/
def indexElements (transform : FieldTransform) :
    List (Option Bytes) → Except Envelope.Error (Option (List (Option Bytes)))
  | [] => .ok (some [])
  | none :: rest => do
      return (← indexElements transform rest).map (none :: ·)
  | some plaintext :: rest => do
      match ← transform.searchIndex plaintext with
      | none => return none
      | some token => return (← indexElements transform rest).map (some token :: ·)

/-- The array with every element replaced by its index, in its own format. -/
def indexArray (value : Bytes) (binary : Bool) (transform : FieldTransform) :
    Except Envelope.Error (Option Bytes) :=
  match if binary then decodeBinaryArray value else decodeTextArray value transform.wire with
  | none => .ok none
  | some array => do
      match ← indexElements transform array.elements with
      | none => return none
      | some indexed =>
        return if binary then encodeBinaryArray indexed array.lowerBound
          else some (encodeTextArray indexed)

section RoundTrip

theorem beInt_length (value : Int) : (beInt value).length = 4 := rfl

variable {value : Int}

theorem signedBe_beInt (low : -2 ^ 31 ≤ value) (high : value < 2 ^ 31) :
    RowKeys.signedBe (beInt value) = value := by
  have bytes : ∀ n : Nat, (UInt8.ofNat n).toNat = n % 256 := fun n => UInt8.toNat_ofNat'
  simp only [RowKeys.signedBe, beInt, be32, List.foldl_cons, List.foldl_nil, List.length_cons,
    List.length_nil, bytes]
  omega

theorem takeInt_beInt (low : -2 ^ 31 ≤ value) (high : value < 2 ^ 31) (rest : Bytes) :
    takeInt (beInt value ++ rest) = some (value, rest) := by
  have long : ¬ (beInt value ++ rest).length < 4 := by
    rw [List.length_append, beInt_length]
    omega
  rw [takeInt, if_neg long, List.take_left' (beInt_length value),
    List.drop_left' (beInt_length value), signedBe_beInt low high]

variable {elements : List (Option Bytes)}

theorem takeElements_encode
    (short : ∀ token ∈ elements.flatMap Option.toList, token.length < 2 ^ 31) (rest : Bytes) :
    takeElements elements.length (encodeElements elements ++ rest) = some (elements, rest) := by
  induction elements with
  | nil => rfl
  | cons element elements ih =>
    have tail := ih fun token listed =>
      short token (List.mem_append_right _ listed)
    cases element with
    | none =>
      simp only [encodeElements, List.append_assoc, List.length_cons, takeElements,
        takeInt_beInt (by omega : (-2 ^ 31 : Int) ≤ -1) (by omega), Option.bind_eq_bind,
        Option.bind_some, if_true, tail]
      rfl
    | some token =>
      have fits : token.length < 2 ^ 31 := short token (List.mem_append_left _ (by simp))
      have notNull : ¬ (token.length : Int) = -1 := by omega
      have inside : ¬ ((token.length : Int) < 0 ∨
          (token ++ (encodeElements elements ++ rest)).length < token.length) := by
        rw [List.length_append]
        omega
      simp only [encodeElements, List.append_assoc, List.length_cons, takeElements,
        takeInt_beInt (by omega : (-2 ^ 31 : Int) ≤ token.length) (by omega),
        Option.bind_eq_bind, Option.bind_some, if_neg notNull, Int.toNat_natCast, if_neg inside,
        List.drop_left, List.take_left, tail]
      rfl

variable {oid : Int}

section Layout

variable {flags oid : Int} (low : -2 ^ 31 ≤ flags) (high : flags < 2 ^ 31)
  (known : oid ∈ indexableElementOids)

include low high known

end Layout

variable {bytes : Bytes}

end RoundTrip

end Dbsec.ArrayParam
