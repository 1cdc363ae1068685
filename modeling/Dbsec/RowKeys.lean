import Dbsec.Text
import Dbsec.Envelope

/-! Row keys in canonical form, core/src/rowkey.rs: a value in either wire format is
parsed through its type and rendered as PostgreSQL renders it. Of the escapes of
Rust's debug form, which only reach a refusal's text, those of ASCII are modelled:
what else is not printable, or extends a grapheme, stands there unescaped. -/
namespace Dbsec.RowKeys
open Framing Envelope

namespace Oid
def int8 : Nat := 20
def int2 : Nat := 21
def int4 : Nat := 23
def text : Nat := 25
def varchar : Nat := 1043
def uuid : Nat := 2950
end Oid

inductive Format where
  | text
  | binary
  deriving DecidableEq

def debugChar (char : Char) : List Char :=
  if char = '"' ∨ char = '\\' then ['\\', char]
  else if char = '\n' then ['\\', 'n']
  else if char = '\r' then ['\\', 'r']
  else if char = '\t' then ['\\', 't']
  else if char.toNat = 0 then ['\\', '0']
  else if char.toNat < 32 ∨ char.toNat = 127 then
    "\\u\x7b".toList ++ Nat.toDigits 16 char.toNat ++ "\x7d".toList
  else [char]

def debugText (text : List Char) : String :=
  String.ofList ('"' :: (text.flatMap debugChar ++ ['"']))

def utf8 (bytes : Bytes) : Except Error (List Char) :=
  match Text.decode bytes with
  | some text => .ok text
  | none => .error (.rowKeyType "row key is not valid UTF-8")

def integerText (width : Nat) (bytes : Bytes) : Except Error Bytes := do
  let text ← utf8 bytes
  match Text.parseSigned width (Text.trim text) with
  | some value => return Text.encode (Text.renderInt value)
  | none =>
    throw (.rowKeyType s!"row key {debugText text} is not an integer of its column's type")

def hyphenated (hex : List Char) : List Char :=
  hex.take 8 ++ '-' :: (hex.drop 8).take 4 ++ '-' :: (hex.drop 12).take 4 ++
    '-' :: (hex.drop 16).take 4 ++ '-' :: hex.drop 20

/-- What is left of a uuid inside optional braces; an unclosed brace leaves nothing. -/
def unbraced (text : List Char) : List Char :=
  match text with
  | '\x7b' :: rest => if rest.getLast? = some '\x7d' then rest.dropLast else []
  | _ => text

def uuidFromText (bytes : Bytes) : Except Error Bytes := do
  let text ← utf8 bytes
  let digits := (unbraced (Text.trim text)).filter (· ≠ '-')
  if digits.all (fun char => (Text.hexValue char).isSome) && digits.length == 32 then
    return Text.encode (hyphenated (digits.map Text.asciiLower))
  else throw (.rowKeyType s!"row key {debugText text} is not a uuid")

def fixed (size : Nat) (bytes : Bytes) : Except Error Bytes :=
  if bytes.length = size then .ok bytes
  else .error (.rowKeyType s!"row key body is {bytes.length} bytes, expected {size}")

/-- A big-endian two's-complement integer. -/
def signedBe (bytes : Bytes) : Int :=
  let value : Nat := bytes.foldl (fun value byte => value * 256 + byte.toNat) 0
  if 2 * value < 256 ^ bytes.length then value else (value : Int) - 256 ^ bytes.length

def integerBinary (size : Nat) (bytes : Bytes) : Except Error Bytes := do
  return Text.encode (Text.renderInt (signedBe (← fixed size bytes)))

def canonicalBytes (typeOid : Nat) (format : Format) (bytes : Bytes) : Except Error Bytes :=
  if typeOid = Oid.text ∨ typeOid = Oid.varchar then
    -- The only pass-through: the text is validated, not reinterpreted.
    (fun _ => bytes) <$> utf8 bytes
  else match format with
    | .text =>
      if typeOid = Oid.int2 then integerText 16 bytes
      else if typeOid = Oid.int4 then integerText 32 bytes
      else if typeOid = Oid.int8 then integerText 64 bytes
      else if typeOid = Oid.uuid then uuidFromText bytes
      else .error (.rowKeyType s!"type oid {typeOid} cannot be a row key")
    | .binary =>
      if typeOid = Oid.int2 then integerBinary 2 bytes
      else if typeOid = Oid.int4 then integerBinary 4 bytes
      else if typeOid = Oid.int8 then integerBinary 8 bytes
      else if typeOid = Oid.uuid then
        (fun body => Text.encode (hyphenated (Text.hexEncode body))) <$> fixed 16 bytes
      else .error (.rowKeyType s!"type oid {typeOid} cannot be a row key")

def canonical (typeOid : Nat) (format : Format) (value : Option Bytes) : Except Error RowKey :=
  match value with
  | none => .error (.rowKeyType "row key is NULL")
  | some bytes => RowKey.mk <$> canonicalBytes typeOid format bytes

section Constructors

def fromI16 (value : Int16) : RowKey := ⟨Text.encode (Text.renderInt value.toInt)⟩

def fromI32 (value : Int32) : RowKey := ⟨Text.encode (Text.renderInt value.toInt)⟩

def fromI64 (value : Int64) : RowKey := ⟨Text.encode (Text.renderInt value.toInt)⟩

def fromText (value : List Char) : RowKey := ⟨Text.encode value⟩

def fromUuid (value : List Char) : Except Error RowKey :=
  canonical Oid.uuid .text (some (Text.encode value))

def fromUuidBytes (value : Block 16) : RowKey :=
  ⟨Text.encode (hyphenated (Text.hexEncode value.val))⟩

end Constructors

end Dbsec.RowKeys
