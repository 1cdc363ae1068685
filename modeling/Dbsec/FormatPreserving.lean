import Dbsec.KeyCache
import Dbsec.Positions

/-! FpeTransform of core/src/transform.rs: FF1 over the decimal digits of a value, the
other bytes left in place. The places are found again in the stored form on the way back.
FF1 itself is a parameter, taken to be a permutation of the decimal strings of each length
it accepts, with its inverse. -/
namespace Dbsec.FormatPreserving
open Framing Envelope KeyCache Positions

def minFpeDigits : Nat := 6

def Decimal (digits : List Nat) : Prop :=
  minFpeDigits ≤ digits.length ∧ ∀ digit ∈ digits, digit < 10

structure Ff1 where
  encrypt : Key → List Nat → Except String (List Nat)
  decrypt : Key → List Nat → Except String (List Nat)
  encrypt_decimal : ∀ key digits, Decimal digits → ∃ out, encrypt key digits = .ok out ∧
    Decimal out ∧ out.length = digits.length ∧ decrypt key out = .ok digits
  decrypt_decimal : ∀ key digits, Decimal digits → ∃ out, decrypt key digits = .ok out ∧
    Decimal out ∧ out.length = digits.length ∧ encrypt key out = .ok digits

inductive FpeError where
  | key (error : Error)
  | fpe (cause : String)
  /-- Too few digits. -/
  | fpeDomain

structure FpeTransform (keys : KeySource) where
  keyName : String
  detokenize : Bool
  /-- The key FF1 was set up with, once there was a use for it. -/
  cell : Option Key

variable {keys : KeySource}

def FpeTransform.new (keys : KeySource) (keyName : String) (detokenize : Bool) :
    FpeTransform keys :=
  ⟨keyName, detokenize, none⟩

/-- The key of this column's FF1. A lookup that fails fills nothing. -/
def FpeTransform.ff1 (transform : FpeTransform keys) : Except FpeError Key × FpeTransform keys :=
  match transform.cell with
  | some key => (.ok key, transform)
  | none =>
    match keys.indexKey transform.keyName with
    | .ok key => (.ok key, { transform with cell := some key })
    | .error error => (.error (.key error), transform)

def isAsciiDigit (byte : UInt8) : Bool := 0x30 ≤ byte && byte ≤ 0x39

def digitOf (byte : UInt8) : Nat := (byte - 0x30).toNat

def byteOf (digit : Nat) : UInt8 := 0x30 + UInt8.ofNat digit

/-- FF1 over the digits of the data; `none` when there are too few. -/
def FpeTransform.transformDigits (ff1 : Ff1) (transform : FpeTransform keys) (data : Bytes)
    (decrypt : Bool) : Except FpeError (Option Bytes) × FpeTransform keys :=
  let places := positions isAsciiDigit data
  if places.length < minFpeDigits then (.ok none, transform)
  else
    let digits := places.map fun place => digitOf (data.getD place 0)
    match transform.ff1 with
    | (.error error, transform) => (.error error, transform)
    | (.ok key, transform) =>
      match if decrypt then ff1.decrypt key digits else ff1.encrypt key digits with
      | .error cause => (.error (.fpe cause), transform)
      | .ok out => (.ok (some (scatter data places (out.map byteOf))), transform)

/-- The row is not looked at: a value is the same in every row. -/
def FpeTransform.seal (ff1 : Ff1) (transform : FpeTransform keys) (plaintext : Bytes) :
    Except FpeError Bytes × FpeTransform keys :=
  match transform.transformDigits ff1 plaintext false with
  | (.error error, transform) => (.error error, transform)
  | (.ok none, transform) => (.error .fpeDomain, transform)
  | (.ok (some stored), transform) => (.ok stored, transform)

def FpeTransform.open (ff1 : Ff1) (transform : FpeTransform keys) (stored : Bytes) :
    Except FpeError (Option Bytes) × FpeTransform keys :=
  if !transform.detokenize then (.ok none, transform)
  else transform.transformDigits ff1 stored true

section Digits

variable {byte : UInt8}

theorem isAsciiDigit_iff : isAsciiDigit byte = true ↔ 0x30 ≤ byte.toNat ∧ byte.toNat ≤ 0x39 := by
  rw [isAsciiDigit, Bool.and_eq_true, decide_eq_true_eq, decide_eq_true_eq, UInt8.le_iff_toNat_le,
    UInt8.le_iff_toNat_le]
  rfl

theorem digitOf_eq (digit : isAsciiDigit byte = true) : digitOf byte = byte.toNat - 48 := by
  have low : (0x30 : UInt8) ≤ byte := UInt8.le_iff_toNat_le.mpr (isAsciiDigit_iff.mp digit).1
  rw [digitOf, UInt8.toNat_sub_of_le _ _ low]
  rfl

theorem digitOf_lt (digit : isAsciiDigit byte = true) : digitOf byte < 10 := by
  obtain ⟨low, high⟩ := isAsciiDigit_iff.mp digit
  rw [digitOf_eq digit]
  omega

variable {digit : Nat}

theorem byteOf_toNat (small : digit < 10) : (byteOf digit).toNat = 48 + digit := by
  rw [byteOf, UInt8.toNat_add, UInt8.toNat_ofNat']
  change (48 + digit % 256) % 256 = 48 + digit
  omega

theorem byteOf_digit (small : digit < 10) : isAsciiDigit (byteOf digit) = true := by
  rw [isAsciiDigit_iff, byteOf_toNat small]
  omega

theorem digitOf_byteOf (small : digit < 10) : digitOf (byteOf digit) = digit := by
  rw [digitOf_eq (byteOf_digit small), byteOf_toNat small]
  omega

theorem byteOf_digitOf (digit : isAsciiDigit byte = true) : byteOf (digitOf byte) = byte := by
  obtain ⟨low, high⟩ := isAsciiDigit_iff.mp digit
  apply UInt8.toNat_inj.mp
  rw [byteOf_toNat (digitOf_lt digit), digitOf_eq digit]
  omega

end Digits

section Transforming

variable {ff1 : Ff1} {transform ready : FpeTransform keys} {key : Key} {data : Bytes}

def digitsOf (data : Bytes) : List Nat := (data.filter isAsciiDigit).map digitOf

theorem digits_read (data : Bytes) :
    (positions isAsciiDigit data).map (fun place => digitOf (data.getD place 0)) =
      digitsOf data := by
  have defaulted : (fun place => digitOf (data.getD place 0)) =
      (fun found : Option UInt8 => digitOf (found.getD 0)) ∘ (data[·]?) := rfl
  rw [defaulted, ← List.map_map, positions_read, List.map_map]
  rfl

theorem digitsOf_decimal (enough : minFpeDigits ≤ (data.filter isAsciiDigit).length) :
    Decimal (digitsOf data) := by
  refine ⟨by rwa [digitsOf, List.length_map], fun digit listed => ?_⟩
  obtain ⟨byte, kept, rfl⟩ := List.mem_map.mp listed
  exact digitOf_lt (List.mem_filter.mp kept).2

theorem bytes_of_digits (data : Bytes) : (digitsOf data).map byteOf = data.filter isAsciiDigit := by
  rw [digitsOf, List.map_map]
  refine (List.map_congr_left fun byte kept => ?_).trans (List.map_id _)
  exact byteOf_digitOf (List.mem_filter.mp kept).2

variable {out : List Nat}

theorem fits_of_decimal (decimal : Decimal out) (long : out.length = (digitsOf data).length) :
    Fits isAsciiDigit data (out.map byteOf) := by
  refine ⟨by rw [List.length_map, long, digitsOf, List.length_map], fun byte listed => ?_⟩
  obtain ⟨digit, inside, rfl⟩ := List.mem_map.mp listed
  exact byteOf_digit (decimal.2 digit inside)

theorem digitsOf_refill (decimal : Decimal out) (long : out.length = (digitsOf data).length) :
    digitsOf (refill isAsciiDigit data (out.map byteOf)) = out := by
  rw [digitsOf, refill_filter (fits_of_decimal decimal long), List.map_map]
  refine (List.map_congr_left fun digit listed => ?_).trans (List.map_id _)
  exact digitOf_byteOf (decimal.2 digit listed)

theorem transformDigits_few (few : (data.filter isAsciiDigit).length < minFpeDigits)
    (decrypt : Bool) :
    transform.transformDigits ff1 data decrypt = (.ok none, transform) := by
  rw [FpeTransform.transformDigits, positions_length, if_pos few]

theorem transformDigits_enough (enough : minFpeDigits ≤ (data.filter isAsciiDigit).length)
    (available : transform.ff1 = (.ok key, ready)) {decrypt : Bool}
    (permuted :
      (if decrypt then ff1.decrypt key (digitsOf data) else ff1.encrypt key (digitsOf data)) =
      .ok out) :
    transform.transformDigits ff1 data decrypt =
      (.ok (some (refill isAsciiDigit data (out.map byteOf))), ready) := by
  simp only [FpeTransform.transformDigits, positions_length, if_neg (Nat.not_lt.mpr enough),
    digits_read, available, permuted, scatter_positions]

theorem refill_digits (long : out.length = (digitsOf data).length) (decimal : Decimal out) :
    minFpeDigits ≤ ((refill isAsciiDigit data (out.map byteOf)).filter isAsciiDigit).length := by
  rw [refill_filter (fits_of_decimal decimal long), List.length_map]
  exact decimal.1

theorem seal_stored (ff1 : Ff1) (enough : minFpeDigits ≤ (data.filter isAsciiDigit).length)
    (available : transform.ff1 = (.ok key, ready)) :
    ∃ out, Decimal out ∧ out.length = (digitsOf data).length ∧
      transform.seal ff1 data = (.ok (refill isAsciiDigit data (out.map byteOf)), ready) ∧
      ∀ {reader after : FpeTransform keys}, reader.detokenize = true →
        reader.ff1 = (.ok key, after) →
        reader.open ff1 (refill isAsciiDigit data (out.map byteOf)) = (.ok (some data), after) := by
  obtain ⟨out, permuted, decimal, long, back⟩ := ff1.encrypt_decimal key _ (digitsOf_decimal enough)
  refine ⟨out, decimal, long, ?_, ?_⟩
  · rw [FpeTransform.seal, transformDigits_enough enough available (by simpa using permuted)]
  · intro reader after detokenizes known
    have again :
      (if true then ff1.decrypt key (digitsOf (refill isAsciiDigit data (out.map byteOf)))
        else ff1.encrypt key (digitsOf (refill isAsciiDigit data (out.map byteOf)))) =
          .ok (digitsOf data) := by
      rw [if_pos rfl, digitsOf_refill decimal long, back]
    rw [FpeTransform.open, detokenizes, if_neg (by decide),
      transformDigits_enough (refill_digits long decimal) known again, bytes_of_digits,
      refill_refill (fits_of_decimal decimal long)]

end Transforming

/-- A byte and what stands in its place: a digit for a digit, the byte itself otherwise. -/
def SameKind (byte stored : UInt8) : Prop :=
  isAsciiDigit byte = isAsciiDigit stored ∧ (isAsciiDigit byte = false → stored = byte)

/-- Format-preserving encryption keeps the shape of a value and is undone by any reader
with the key; different values are stored differently. With fewer than six digits nothing
is stored and nothing is changed on reading, and no key is asked for. -/
theorem fpe_preserves_format (ff1 : Ff1) (transform ready : FpeTransform keys) (key : Key)
    (available : transform.ff1 = (.ok key, ready)) :
    (∀ plaintext : Bytes, minFpeDigits ≤ (plaintext.filter isAsciiDigit).length → ∃ stored,
        transform.seal ff1 plaintext = (.ok stored, ready) ∧ stored.length = plaintext.length ∧
        List.Forall₂ SameKind plaintext stored ∧
        ∀ reader after : FpeTransform keys, reader.detokenize = true →
          reader.ff1 = (.ok key, after) →
          reader.open ff1 stored = (.ok (some plaintext), after)) ∧
      (∀ (first second stored : Bytes) (after other : FpeTransform keys),
        transform.seal ff1 first = (.ok stored, after) →
          transform.seal ff1 second = (.ok stored, other) →
          first = second) ∧
      ∀ (data : Bytes) (reader : FpeTransform keys),
        (data.filter isAsciiDigit).length < minFpeDigits →
        reader.seal ff1 data = (.error .fpeDomain, reader) ∧
          reader.open ff1 data = (.ok none, reader) := by
  have few : ∀ (data : Bytes) (reader : FpeTransform keys),
      (data.filter isAsciiDigit).length < minFpeDigits →
      reader.seal ff1 data = (.error .fpeDomain, reader) ∧
        reader.open ff1 data = (.ok none, reader) := by
    intro data reader short
    constructor
    · rw [FpeTransform.seal, transformDigits_few short]
    · rw [FpeTransform.open]
      split
      · rfl
      · exact transformDigits_few short true
  refine ⟨?_, ?_, few⟩
  · intro plaintext enough
    obtain ⟨out, decimal, long, sealed, opens⟩ := seal_stored ff1 enough available
    have shape := refill_shape (fits_of_decimal decimal long)
    exact ⟨_, sealed, shape.length_eq.symm, shape, fun _ _ => opens⟩
  · intro first second stored after other one two
    have enough :
        ∀ {data : Bytes} {left : FpeTransform keys}, transform.seal ff1 data = (.ok stored, left) →
        minFpeDigits ≤ (data.filter isAsciiDigit).length := by
      intro data left sealed
      by_contra short
      rw [(few data transform (Nat.not_le.mp short)).1] at sealed
      cases sealed
    -- A reader with this key set up opens the one stored form to both.
    have known : (⟨transform.keyName, true, some key⟩ : FpeTransform keys).ff1 =
        (.ok key, ⟨transform.keyName, true, some key⟩) := rfl
    obtain ⟨out, -, -, sealed, opens⟩ := seal_stored ff1 (enough one) available
    obtain ⟨again, -, -, resealed, reopens⟩ := seal_stored ff1 (enough two) available
    rw [one] at sealed
    rw [two] at resealed
    have firstRead := opens rfl known
    have secondRead := reopens rfl known
    rw [← Except.ok.inj (Prod.mk.inj sealed).1] at firstRead
    rw [← Except.ok.inj (Prod.mk.inj resealed).1, firstRead] at secondRead
    exact Option.some.inj (Except.ok.inj (Prod.mk.inj secondRead).1)

def complement (digits : List Nat) : Except String (List Nat) := .ok (digits.map (9 - ·))

theorem complement_decimal (digits : List Nat) (decimal : Decimal digits) :
    ∃ out, complement digits = .ok out ∧ Decimal out ∧ out.length = digits.length ∧
      complement out = .ok digits := by
  have twice : (digits.map (9 - ·)).map (9 - ·) = digits := by
    rw [List.map_map]
    refine (List.map_congr_left fun digit listed => ?_).trans (List.map_id _)
    have small := decimal.2 digit listed
    change 9 - (9 - digit) = digit
    omega
  refine ⟨_, rfl, ⟨?_, fun digit listed => ?_⟩, List.length_map _, congrArg Except.ok twice⟩
  · rw [List.length_map]
    exact decimal.1
  · obtain ⟨old, -, rfl⟩ := List.mem_map.mp listed
    omega

def complements : Ff1 where
  encrypt := fun _ => complement
  decrypt := fun _ => complement
  encrypt_decimal := fun _ => complement_decimal
  decrypt_decimal := fun _ => complement_decimal

def oneKey : Key := ⟨List.replicate 32 7, by simp⟩

def indexOnly : KeySource where
  activeKey := fun _ => .error (.unknownKey "active")
  key := fun _ => .error (.unknownKey "key")
  indexKey := fun _ => .ok oneKey
  key_of_active := nofun

/-- The value `4111-11`, stored as `5888-88`. -/
theorem card_digits_hidden :
    ((FpeTransform.new indexOnly "card" true).seal complements
      [52, 49, 49, 49, 45, 49, 49]).1.toOption =
        some [53, 56, 56, 56, 45, 56, 56] ∧
      ∃ stored,
        (FpeTransform.new indexOnly "card" true).seal complements [52, 49, 49, 49, 45, 49, 49] =
        (.ok stored, ⟨"card", true, some oneKey⟩) ∧ stored.length = 7 := by
  obtain ⟨stored, sealed, long, -⟩ := (fpe_preserves_format complements
    (FpeTransform.new indexOnly "card" true) ⟨"card", true, some oneKey⟩ oneKey rfl).1
    [52, 49, 49, 49, 45, 49, 49] (by decide)
  exact ⟨by decide, stored, sealed, long⟩

end Dbsec.FormatPreserving
