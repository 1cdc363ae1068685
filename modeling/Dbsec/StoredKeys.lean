import Dbsec.Spellings
import Dbsec.BoundParams
import Dbsec.Seal

/-! What the server stores when a literal expression is assigned to a row key column. The
types a key column can have, and those literals start out with, are spelled out; every
other type is a parameter. A numeric is an unscaled integer with its display scale. -/
namespace Dbsec.StoredKeys
open Framing Text Spellings Envelope RowKeys Params Sql Catalog Literals Seal BoundParams

section Values

inductive Width where
  | int2
  | int4
  | int8
  deriving DecidableEq

def Width.bits : Width → Nat
  | .int2 => 16
  | .int4 => 32
  | .int8 => 64

def Width.holds (width : Width) (value : Int) : Bool :=
  decide (-(2 ^ (width.bits - 1) : Int) ≤ value ∧ value < 2 ^ (width.bits - 1))

inductive PgType where
  | integer (width : Width)
  | numeric
  | text
  | varchar (limit : Option Nat)
  | bpchar (limit : Option Nat)
  | uuid
  | other (name : String)

structure Numeric where
  negative : Bool
  digits : Nat
  scale : Nat
  deriving DecidableEq

/-- A value of the server; a string literal has no type until it is used. -/
inductive Datum where
  | unknown (text : List Char)
  | integer (width : Width) (value : Int)
  | numeric (value : Numeric)
  | text (text : List Char)
  | bpchar (text : List Char)
  | uuid (bytes : Block 16)
  | other (name : String) (text : List Char)
  deriving DecidableEq

def Numeric.output (number : Numeric) : List Char :=
  let sign := if number.negative && number.digits ≠ 0 then ['-'] else []
  if number.scale = 0 then sign ++ renderNat number.digits
  else
    let fraction := renderNat (number.digits % 10 ^ number.scale)
    sign ++ renderNat (number.digits / 10 ^ number.scale) ++
      '.' :: (List.replicate (number.scale - fraction.length) '0' ++ fraction)

/-- Rounded half away from zero. -/
def Numeric.rounded (number : Numeric) : Int :=
  let magnitude : Int := (2 * number.digits + 10 ^ number.scale) / (2 * 10 ^ number.scale)
  if number.negative then -magnitude else magnitude

def Numeric.ofInt (value : Int) : Numeric := ⟨decide (value < 0), value.natAbs, 0⟩

def Datum.output : Datum → List Char
  | .unknown chars => chars
  | .integer _ value => renderInt value
  | .numeric number => number.output
  | .text chars => chars
  | .bpchar chars => chars
  | .uuid bytes => hyphenated (hexEncode bytes.val)
  | .other _ chars => chars

def bigEndian : Nat → Nat → Bytes
  | 0, _ => []
  | size + 1, value => bigEndian size (value / 256) ++ [UInt8.ofNat value]

def Datum.binary : Datum → Bytes
  | .integer width value =>
    bigEndian (width.bits / 8) (value % (2 ^ width.bits : Int)).toNat
  | .uuid bytes => bytes.val
  | value => encode value.output

def Datum.wire (held : Datum) : Format → Bytes
  | .text => encode held.output
  | .binary => held.binary

def Datum.hasType : Datum → PgType → Bool
  | .integer width value, .integer wanted => decide (width = wanted) && width.holds value
  | .numeric _, .numeric => true
  | .text _, .text => true
  | .text _, .varchar _ => true
  | .bpchar _, .bpchar _ => true
  | .uuid _, .uuid => true
  | .other name _, .other wanted => name == wanted
  | _, _ => false

end Values

section Server

/-- What the development does not fix of a server: the types behind names, how escapes
are read, and every conversion that involves another type. -/
structure Pg where
  typeNamed : String → PgType
  escapes : List Char → Option (List Char)
  escapes_plain : ∀ text, '\\' ∉ text → escapes text = some text
  /-- Spellings of an integer other than decimal digits: with a base letter or digit
  groups. -/
  otherInteger : List Char → Option Int
  otherInteger_marked : ∀ text value, otherInteger text = some value →
    ∃ char ∈ text, char ∈ ['x', 'X', 'o', 'O', 'b', 'B', '_']
  convertOther : (explicit : Bool) → PgType → Datum → Option Datum
  equalsOther : PgType → Bytes → Datum → Bool

/-- A server that knows the one type name `varchar(2)` and no escapes. -/
def basicPg : Pg where
  typeNamed name := if name = "VARCHAR(2)" then .varchar (some 2) else .text
  escapes text := if '\\' ∈ text then none else some text
  escapes_plain _ plain := if_neg plain
  otherInteger _ := none
  otherInteger_marked _ _ read := nomatch read
  convertOther _ _ _ := none
  equalsOther _ _ _ := false

def isSpace (char : Char) : Bool := [' ', '\t', '\n', '\r', '\x0b', '\x0c'].contains char

def stripped (text : List Char) : List Char := trimEnd isSpace (text.dropWhile isSpace)

def signed (text : List Char) : Bool × List Char :=
  match text with
  | '-' :: rest => (true, rest)
  | '+' :: rest => (false, rest)
  | _ => (false, text)

def integerInput (pg : Pg) (text : List Char) : Option Int :=
  let (negative, digits) := signed (stripped text)
  match parseDigits digits with
  | some magnitude => some (if negative then -magnitude else magnitude)
  | none => pg.otherInteger text

def exponentOf : List Char → Option Int
  | [] => some 0
  | _ :: spelled =>
    let (negative, digits) := signed spelled
    (parseDigits digits).map fun magnitude => if negative then -(magnitude : Int) else magnitude

def decimalNumber (text : List Char) : Option Numeric := do
  let mantissa := text.takeWhile fun char => char ≠ 'e' && char ≠ 'E'
  let exponent ← exponentOf (text.dropWhile fun char => char ≠ 'e' && char ≠ 'E')
  let whole := mantissa.takeWhile (· ≠ '.')
  let fraction := (mantissa.dropWhile (· ≠ '.')).drop 1
  let digits ← parseDigits (whole ++ fraction)
  let scale := (fraction.length : Int) - exponent
  return ⟨false, digits * 10 ^ (-scale).toNat, scale.toNat⟩

def numericInput (text : List Char) : Option Numeric :=
  let (negative, digits) := signed (stripped text)
  (decimalNumber digits).map fun number => { number with negative }

def uuidDigits : Nat → List Char → Option (List Char)
  | _, [] => some []
  | count, char :: rest =>
    if char = '-' then
      if 0 < count ∧ count % 4 = 0 then
        match rest with
        | '-' :: _ => none
        | [] => none
        | _ => uuidDigits count rest
      else none
    else if (hexValue char).isSome then (uuidDigits (count + 1) rest).map (char :: ·)
    else none

def uuidInput (text : List Char) : Option (Block 16) := do
  let inner := match text with
    | '\x7b' :: rest => if rest.getLast? = some '\x7d' then some rest.dropLast else none
    | _ => some text
  let digits ← uuidDigits 0 (← inner)
  let bytes ← hexDecode digits
  if sized : bytes.length = 16 then some ⟨bytes, sized⟩ else none

def fit (width : Width) (value : Int) : Option Datum :=
  if width.holds value then some (.integer width value) else none

def input (pg : Pg) (type : PgType) (text : List Char) : Option Datum :=
  match type with
  | .integer width => (integerInput pg text).bind (fit width)
  | .numeric => (numericInput text).map .numeric
  | .text => some (.text text)
  | .varchar _ => some (.text text)
  | .bpchar _ => some (.bpchar text)
  | .uuid => (uuidInput text).map .uuid
  | .other name => (pg.convertOther true (.other name) (.unknown text)).filter (·.hasType type)

def asText : Datum → List Char
  | .bpchar text => trimEnd (· = ' ') text
  | value => value.output

/-- A conversion by cast, or by assignment when `explicit` is false. A string becomes a
number or a uuid by an explicit cast only. -/
def convert (pg : Pg) (explicit : Bool) (type : PgType) (value : Datum) : Option Datum :=
  match value, type with
  | .unknown text, type => input pg type text
  | .other _ _, type => (pg.convertOther explicit type value).filter (·.hasType type)
  | value, .other name => (pg.convertOther explicit (.other name) value).filter (·.hasType type)
  | .integer _ value, .integer width => fit width value
  | .numeric number, .integer width => fit width number.rounded
  | .integer _ value, .numeric => some (.numeric (.ofInt value))
  | .numeric number, .numeric => some (.numeric number)
  | .uuid bytes, .uuid => some (.uuid bytes)
  | .text text, .integer width => if explicit then input pg (.integer width) text else none
  | .text text, .numeric => if explicit then input pg .numeric text else none
  | .text text, .uuid => if explicit then input pg .uuid text else none
  | .bpchar text, .integer width => if explicit then input pg (.integer width) text else none
  | .bpchar text, .numeric => if explicit then input pg .numeric text else none
  | .bpchar text, .uuid => if explicit then input pg .uuid text else none
  | .bpchar text, .bpchar _ => some (.bpchar text)
  | value, .text => some (.text (asText value))
  | value, .varchar _ => some (.text (asText value))
  | value, .bpchar _ => some (.bpchar (asText value))
  | _, _ => none

/-- A text within a length: an explicit cast cuts it, an assignment cuts blanks only. -/
def within (explicit : Bool) (limit : Nat) (text : List Char) : Option (List Char) :=
  if explicit || (text.drop limit).all (· = ' ') then some (text.take limit) else none

def sized (explicit : Bool) : PgType → Datum → Option Datum
  | .varchar (some limit), .text text => (within explicit limit text).map .text
  | .bpchar (some limit), .bpchar text =>
    (within explicit limit text).map fun kept =>
      .bpchar (kept ++ List.replicate (limit - kept.length) ' ')
  | _, value => some value

/-- A number literal is the smallest integer type that holds it, or a numeric. -/
def numberLiteral (text : List Char) : Option Datum :=
  match parseDigits text with
  | some value =>
    if Width.int4.holds value then some (.integer .int4 value)
    else if Width.int8.holds value then some (.integer .int8 value)
    else some (.numeric (.ofInt value))
  | none => (decimalNumber text).map .numeric

def negate : Datum → Option Datum
  | .integer width value => fit width (-value)
  | .numeric number => some (.numeric { number with negative := !number.negative })
  | _ => none

def keepSign : Datum → Option Datum
  | .integer width value => some (.integer width value)
  | .numeric number => some (.numeric number)
  | _ => none

variable {Query : Type}

/-- The value of a literal expression. With `escapes` on, an ordinary or national literal
follows escape-string rules and a Unicode one is refused; a national literal is a
`bpchar`. -/
def evaluate (pg : Pg) (escapes : Bool) : Expr Query → Option Datum
  | .unary .nested inner => evaluate pg escapes inner
  | .unary (.cast type) inner => do
      let value ← evaluate pg escapes inner
      sized true (pg.typeNamed type) (← convert pg true (pg.typeNamed type) value)
  | .unary (.op .minus) inner => (evaluate pg escapes inner).bind negate
  | .unary (.op .plus) inner => (evaluate pg escapes inner).bind keepSign
  | .value (.singleQuoted text) =>
    (if escapes then pg.escapes text.toList else some text.toList).map .unknown
  | .value (.national text) =>
    (if escapes then pg.escapes text.toList else some text.toList).map .bpchar
  | .value (.unicode text) => if escapes then none else some (.unknown text.toList)
  | .value (.escaped text) => some (.unknown text.toList)
  | .value (.dollarQuoted text _) => some (.unknown text.toList)
  | .value (.number text) => numberLiteral text.toList
  | _ => none

def stored (pg : Pg) (escapes : Bool) (column : PgType) (expr : Expr Query) : Option Datum := do
  sized false column (← convert pg false column (← evaluate pg escapes expr))

/-- Whether a value equals a key of the type, given by its text. A literal takes the key's
type, numbers compare by value and strings as text; a `bpchar` compares without trailing
blanks, and a varchar next to it too. Where there is no operator it is an error. -/
def equalsKey (pg : Pg) (type : PgType) (key : Bytes) (value : Datum) : Bool :=
  match type, value with
  | type, .unknown text => (input pg type text).any fun held => encode held.output == key
  | type, .other name text => pg.equalsOther type key (.other name text)
  | .integer _, .integer _ value => encode (renderInt value) == key
  | .integer _, .numeric number =>
    number.digits % 10 ^ number.scale == 0 && encode (renderInt number.rounded) == key
  | .text, .text text => encode text == key
  | .varchar _, .text text => encode text == key
  | .text, .bpchar text => encode (trimEnd (· = ' ') text) == key
  | .varchar _, .bpchar text =>
    (decode key).any fun held => trimEnd (· = ' ') held == trimEnd (· = ' ') text
  | .uuid, .uuid bytes => encode (hyphenated (hexEncode bytes.val)) == key
  | _, _ => false

end Server

section Typed

variable {result : Datum}

theorem fit_typed {width : Width} {value : Int} (fits : fit width value = some result) :
    result.hasType (.integer width) = true := by
  unfold fit at fits
  split at fits
  · rename_i held
    cases fits
    simp [Datum.hasType, held]
  · cases fits

variable {pg : Pg} {type : PgType}

theorem input_typed {text : List Char} (read : input pg type text = some result) :
    result.hasType type = true := by
  cases type with
  | integer width =>
    obtain ⟨value, _, fits⟩ := Option.bind_eq_some_iff.mp read
    exact fit_typed fits
  | numeric =>
    obtain ⟨number, _, rfl⟩ := Option.map_eq_some_iff.mp read
    rfl
  | uuid =>
    obtain ⟨bytes, _, rfl⟩ := Option.map_eq_some_iff.mp read
    rfl
  | other name => exact (Option.filter_eq_some_iff.mp read).2
  | text =>
    cases read
    rfl
  | varchar limit =>
    cases read
    rfl
  | bpchar limit =>
    cases read
    rfl

variable {explicit : Bool} {value : Datum}

theorem convert_typed (converted : convert pg explicit type value = some result) :
    result.hasType type = true := by
  unfold convert at converted
  split at converted
  case h_1 => exact input_typed converted
  case h_2 => exact (Option.filter_eq_some_iff.mp converted).2
  case h_3 => exact (Option.filter_eq_some_iff.mp converted).2
  case h_4 => exact fit_typed converted
  case h_5 => exact fit_typed converted
  all_goals
    first
    | (cases converted; rfl)
    | (split at converted
       · exact input_typed converted
       · cases converted)
    | cases converted

theorem sized_typed (typed : value.hasType type = true)
    (cut : sized explicit type value = some result) :
    result.hasType type = true := by
  unfold sized at cut
  split at cut
  · obtain ⟨kept, _, rfl⟩ := Option.map_eq_some_iff.mp cut
    rfl
  · obtain ⟨kept, _, rfl⟩ := Option.map_eq_some_iff.mp cut
    rfl
  · cases cut
    exact typed

theorem stored_typed {Query : Type} {escapes : Bool} {column : PgType} {expr : Expr Query}
    {held : Datum} (stores : stored pg escapes column expr = some held) :
    held.hasType column = true := by
  simp only [stored, Option.bind_eq_bind, Option.bind_eq_some_iff] at stores
  obtain ⟨value, _, converted, conversion, cut⟩ := stores
  exact sized_typed (convert_typed conversion) cut

end Typed

section Keys

def Width.oid : Width → Nat
  | .int2 => Oid.int2
  | .int4 => Oid.int4
  | .int8 => Oid.int8

def keyOid : PgType → Option Nat
  | .integer width => some width.oid
  | .text => some Oid.text
  | .varchar _ => some Oid.varchar
  | .uuid => some Oid.uuid
  | _ => none

def isTextual : PgType → Bool
  | .text => true
  | .varchar _ => true
  | _ => false

/-- What a key column of each type holds. -/
inductive KeyDatum : PgType → Nat → Datum → Prop where
  | integer {width : Width} {value : Int} : width.holds value = true →
      KeyDatum (.integer width) width.oid (.integer width value)
  | uuid (bytes : Block 16) : KeyDatum .uuid Oid.uuid (.uuid bytes)
  | text {column : PgType} {oid : Nat} (chars : List Char) : isTextual column = true →
      oid = Oid.text ∨ oid = Oid.varchar → KeyDatum column oid (.text chars)

theorem keyDatum {column : PgType} {oid : Nat} {held : Datum} (keyed : keyOid column = some oid)
    (typed : held.hasType column = true) : KeyDatum column oid held := by
  cases column with
  | integer wanted =>
    cases held with
    | integer width value =>
      simp only [Datum.hasType, Bool.and_eq_true, decide_eq_true_eq] at typed
      obtain ⟨rfl, fits⟩ := typed
      cases keyed
      exact .integer fits
    | _ => cases typed
  | uuid =>
    cases held with
    | uuid bytes =>
      cases keyed
      exact .uuid bytes
    | _ => cases typed
  | text =>
    cases held with
    | text chars => exact .text chars rfl (.inl (Option.some.inj keyed).symm)
    | _ => cases typed
  | varchar limit =>
    cases held with
    | text chars => exact .text chars rfl (.inr (Option.some.inj keyed).symm)
    | _ => cases typed
  | _ => cases keyed

def denoted (text : List Char) : Int :=
  if '-' ∈ text then -(decimal (text.filter isDigit) : Int) else decimal (text.filter isDigit)

/-- The value is the one the characters spell: an integer by its sign and digits, a uuid
by its hexadecimal digits, a text as it stands. -/
def Spelled (text : List Char) : Datum → Prop
  | .integer _ value => value = denoted text
  | .uuid bytes => hexDecode (text.filter fun char => (hexValue char).isSome) = some bytes.val
  | .text chars => chars = text
  | _ => False

variable {drops : Char → Bool}

theorem filter_dropWhile {keeps : Char → Bool}
    (apart : ∀ char, drops char = true → keeps char = false) (text : List Char) :
    (text.dropWhile drops).filter keeps = text.filter keeps := by
  induction text with
  | nil => rfl
  | cons char rest ih =>
    rw [List.dropWhile_cons]
    split
    · rename_i dropped
      rw [ih, List.filter_cons, apart char dropped]
      rfl
    · rfl

theorem filter_trimmed {keeps drops : Char → Bool}
    (apart : ∀ char, drops char = true → keeps char = false) (text : List Char) :
    (trimEnd drops (text.dropWhile drops)).filter keeps = text.filter keeps := by
  rw [trimEnd, List.filter_reverse, filter_dropWhile apart, List.filter_reverse,
    List.reverse_reverse, filter_dropWhile apart]

theorem whitespace_plain {char : Char} (blank : isWhitespace char = true) :
    isDigit char = false ∧ char ≠ '-' ∧ hexValue char = none := by
  simp only [isWhitespace, Bool.or_eq_true, Bool.and_eq_true, decide_eq_true_eq, beq_iff_eq]
    at blank
  have bounds : ∀ low high : Char, low ≤ char ∧ char ≤ high →
      low.toNat ≤ char.toNat ∧ char.toNat ≤ high.toNat := by
    intro low high within
    exact ⟨UInt32.le_iff_toNat_le.mp (Char.le_def.mp within.1),
      UInt32.le_iff_toNat_le.mp (Char.le_def.mp within.2)⟩
  have notDigit : ¬ ('0' ≤ char ∧ char ≤ '9') := by
    intro within
    have range : 48 ≤ char.toNat ∧ char.toNat ≤ 57 := bounds _ _ within
    omega
  have notLower : ¬ ('a' ≤ char ∧ char ≤ 'f') := by
    intro within
    have range : 97 ≤ char.toNat ∧ char.toNat ≤ 102 := bounds _ _ within
    omega
  have notUpper : ¬ ('A' ≤ char ∧ char ≤ 'F') := by
    intro within
    have range : 65 ≤ char.toNat ∧ char.toNat ≤ 70 := bounds _ _ within
    omega
  refine ⟨by simpa [isDigit] using notDigit, ?_, ?_⟩
  · rintro rfl
    have code : ('-' : Char).toNat = 45 := rfl
    omega
  · rw [hexValue, if_neg notDigit, if_neg notLower, if_neg notUpper]

variable {width : Nat} {text : List Char}

theorem integerText_ok {key : Bytes} : integerText width (encode text) = .ok key ↔
      ∃ value, parseSigned width (trim text) = some value ∧ key = encode (renderInt value) := by
  unfold integerText utf8
  rw [decode_encode]
  cases read : parseSigned width (trim text) with
  | none => simp [read, bind, Except.bind, throw, throwThe, MonadExceptOf.throw]
  | some value => simp [read, bind, Except.bind, pure, Except.pure, eq_comm]

theorem denoted_trimmed (blank : ∀ char, drops char = true → isWhitespace char = true)
    (text : List Char) : denoted (trimEnd drops (text.dropWhile drops)) = denoted text := by
  have digits := @filter_trimmed isDigit drops
    (fun char dropped => (whitespace_plain (blank char dropped)).1) text
  have signs := @filter_trimmed (· = '-') drops
    (fun char dropped => by simpa using (whitespace_plain (blank char dropped)).2.1) text
  have same : '-' ∈ trimEnd drops (text.dropWhile drops) ↔ '-' ∈ text := by
    have listed : ∀ chars : List Char, '-' ∈ chars ↔ '-' ∈ chars.filter (· = '-') := by
      intro chars
      simp
    rw [listed, signs, ← listed]
  simp only [denoted, digits, same]

theorem denoted_trim (text : List Char) : denoted (trim text) = denoted text :=
  denoted_trimmed (fun _ blank => blank) text

variable {digits : List Char}

theorem parseDigits_ok {value : Nat} (read : parseDigits digits = some value) :
    digits.filter isDigit = digits ∧ '-' ∉ digits ∧ value = decimal digits := by
  unfold parseDigits at read
  split at read
  · rename_i shape
    cases read
    have each := List.all_eq_true.mp shape.2
    refine ⟨List.filter_eq_self.mpr each, ?_, rfl⟩
    intro listed
    cases each _ listed
  · cases read

variable {value : Int}

theorem within_of_some {low high held : Int}
    (fits : (if low ≤ value ∧ value < high then some value else none) = some held) :
    (low ≤ held ∧ held < high) ∧ held = value := by
  split at fits
  · rename_i bounds
    cases fits
    exact ⟨bounds, rfl⟩
  · cases fits

theorem parseSigned_ok (read : parseSigned width text = some value) :
    (-(2 ^ (width - 1) : Int) ≤ value ∧ value < 2 ^ (width - 1)) ∧ value = denoted text := by
  simp only [parseSigned, Option.bind_eq_bind] at read
  split at read
  · rename_i digits
    obtain ⟨magnitude, spelled, fits⟩ := Option.bind_eq_some_iff.mp read
    obtain ⟨bounds, rfl⟩ := within_of_some fits
    refine ⟨bounds, ?_⟩
    obtain ⟨count, coerced, rfl⟩ := Option.map_eq_some_iff.mp spelled
    obtain ⟨plain, counted, same⟩ := Option.bind_eq_some_iff.mp coerced
    obtain ⟨kept, _, rfl⟩ := parseDigits_ok counted
    cases same
    rw [denoted, if_pos List.mem_cons_self, List.filter_cons_of_neg (by decide), kept]
  · rename_i digits
    obtain ⟨magnitude, spelled, fits⟩ := Option.bind_eq_some_iff.mp read
    obtain ⟨bounds, rfl⟩ := within_of_some fits
    refine ⟨bounds, ?_⟩
    obtain ⟨count, counted, rfl⟩ := Option.map_eq_some_iff.mp spelled
    obtain ⟨kept, unsigned, rfl⟩ := parseDigits_ok counted
    rw [denoted, if_neg (by simpa using unsigned), List.filter_cons_of_neg (by decide), kept]
    rfl
  · obtain ⟨magnitude, spelled, fits⟩ := Option.bind_eq_some_iff.mp read
    obtain ⟨bounds, rfl⟩ := within_of_some fits
    refine ⟨bounds, ?_⟩
    obtain ⟨count, counted, rfl⟩ := Option.map_eq_some_iff.mp spelled
    obtain ⟨kept, unsigned, rfl⟩ := parseDigits_ok counted
    rw [denoted, if_neg unsigned, kept]
    rfl

def isHex (char : Char) : Bool := (hexValue char).isSome

theorem filter_hex_unbraced (nonempty : unbraced text ≠ []) :
    (unbraced text).filter isHex = text.filter isHex := by
  unfold unbraced at nonempty ⊢
  split
  · rename_i rest
    split
    · rename_i closed
      obtain ⟨inner, rfl⟩ : ∃ inner, rest = inner ++ ['\x7d'] := by
        obtain ⟨inner, shape⟩ := List.getLast?_eq_some_iff.mp closed
        exact ⟨inner, shape⟩
      rw [List.dropLast_concat, List.filter_cons_of_neg (by decide), List.filter_append]
      simp [isHex, show hexValue '\x7d' = none from rfl]
    · rename_i unclosed
      simp [unclosed] at nonempty
  · rfl

theorem uuidFromText_ok {key : Bytes} (read : uuidFromText (encode text) = .ok key) :
    (text.filter isHex).length = 32 ∧
      key = encode (hyphenated ((text.filter isHex).map asciiLower)) := by
  simp only [uuidFromText, utf8, decode_encode, bind, Except.bind, pure, Except.pure] at read
  split at read
  · rename_i shape
    simp only [Bool.and_eq_true, List.all_eq_true, beq_iff_eq] at shape
    obtain ⟨hexes, counted⟩ := shape
    have nonempty : unbraced (trim text) ≠ [] := by
      intro empty
      rw [empty] at counted
      cases counted
    have digits : (unbraced (trim text)).filter (· ≠ '-') = text.filter isHex := by
      calc (unbraced (trim text)).filter (· ≠ '-')
          = ((unbraced (trim text)).filter (· ≠ '-')).filter isHex :=
            (List.filter_eq_self.mpr hexes).symm
        _ = (unbraced (trim text)).filter isHex := by
            rw [List.filter_filter]
            apply List.filter_congr
            intro char _
            by_cases hyphen : char = '-'
            · subst hyphen
              rfl
            · simp [hyphen]
        _ = (trim text).filter isHex := filter_hex_unbraced nonempty
        _ = text.filter isHex :=
            filter_trimmed (fun _ blank => by rw [isHex, (whitespace_plain blank).2.2]; rfl) text
    rw [digits] at counted read
    cases read
    exact ⟨counted, rfl⟩
  · cases read

theorem hyphenated_filter {hex : List Char} (plain : '-' ∉ hex) :
    (hyphenated hex).filter (· ≠ '-') = hex := by
  have kept : ∀ part : List Char, (∀ char ∈ part, char ∈ hex) → part.filter (· ≠ '-') = part := by
    intro part inside
    apply List.filter_eq_self.mpr
    intro char listed
    have other : char ≠ '-' := by
      rintro rfl
      exact plain (inside _ listed)
    simpa using other
  have take : ∀ start size, ((hex.drop start).take size).filter (· ≠ '-') =
      (hex.drop start).take size := by
    intro start size
    exact kept _ fun char listed => List.mem_of_mem_drop (List.mem_of_mem_take listed)
  have cut :
      ∀ start size, (hex.drop start).take size ++ hex.drop (start + size) = hex.drop start := by
    intro start size
    rw [← List.drop_drop, List.take_append_drop]
  have first : (hex.take 8).filter (· ≠ '-') = hex.take 8 :=
    kept _ fun char listed => List.mem_of_mem_take listed
  have last : (hex.drop 20).filter (· ≠ '-') = hex.drop 20 :=
    kept _ fun char listed => List.mem_of_mem_drop listed
  have dashed : ∀ rest : List Char, ('-' :: rest).filter (· ≠ '-') = rest.filter (· ≠ '-') :=
    fun rest => List.filter_cons_of_neg (by decide)
  calc (hyphenated hex).filter (· ≠ '-')
      = hex.take 8 ++ ((hex.drop 8).take 4 ++ ((hex.drop 12).take 4 ++ ((hex.drop 16).take 4 ++
          hex.drop 20))) := by
        simp only [hyphenated, List.filter_append, List.cons_append, List.append_assoc, dashed,
          first, take, last]
    _ = hex := by
        rw [cut 16 4, cut 12 4, cut 8 4, List.take_append_drop]

theorem hyphen_not_hex (hexes : ∀ digit ∈ digits, isHex digit = true) : '-' ∉ digits := by
  intro listed
  cases hexes _ listed

end Keys

section Outputs

theorem hexEncode_hex (bytes : Bytes) : (∀ digit ∈ hexEncode bytes, isHex digit = true) ∧
    (hexEncode bytes).map asciiLower = hexEncode bytes :=
  hexDecode_iff.mp (hexDecode_hexEncode bytes)

theorem mem_hyphenated {hex : List Char} {char : Char} (listed : char ∈ hyphenated hex) :
    char = '-' ∨ char ∈ hex := by
  simp only [hyphenated, List.mem_append, List.mem_cons, List.append_assoc, List.cons_append]
    at listed
  rcases listed with first | same | second | same | third | same | fourth | same | last
  · exact .inr (List.mem_of_mem_take first)
  · exact .inl same
  · exact .inr (List.mem_of_mem_drop (List.mem_of_mem_take second))
  · exact .inl same
  · exact .inr (List.mem_of_mem_drop (List.mem_of_mem_take third))
  · exact .inl same
  · exact .inr (List.mem_of_mem_drop (List.mem_of_mem_take fourth))
  · exact .inl same
  · exact .inr (List.mem_of_mem_drop last)

variable {text : List Char}

theorem dropWhile_kept {drops : Char → Bool} (kept : ∀ char ∈ text, drops char = false) :
    text.dropWhile drops = text := by
  cases text with
  | nil => rfl
  | cons first rest => simp [kept first List.mem_cons_self]

theorem trim_plain (plain : ∀ char ∈ text, isWhitespace char = false) : trim text = text := by
  rw [trim, trimEnd, dropWhile_kept plain, dropWhile_kept, List.reverse_reverse]
  intro char listed
  exact plain char (List.mem_reverse.mp listed)

theorem unbraced_plain (plain : '\x7b' ∉ text) : unbraced text = text := by
  unfold unbraced
  split
  · exact absurd List.mem_cons_self plain
  · rfl

theorem uuidFromText_output (bytes : Block 16) :
    uuidFromText (encode (hyphenated (hexEncode bytes.val))) =
      .ok (encode (hyphenated (hexEncode bytes.val))) := by
  obtain ⟨hexes, lowered⟩ := hexEncode_hex bytes.val
  have plain : ∀ char ∈ hyphenated (hexEncode bytes.val),
      isWhitespace char = false ∧ char ≠ '\x7b' := by
    intro char listed
    rcases mem_hyphenated listed with rfl | digit
    · exact ⟨rfl, by decide⟩
    · have hex := hexes char digit
      constructor
      · rw [Bool.eq_false_iff]
        intro blank
        rw [isHex, (whitespace_plain blank).2.2] at hex
        cases hex
      · rintro rfl
        cases hex
  have unspaced := trim_plain fun char listed => (plain char listed).1
  have bare := unbraced_plain fun listed => (plain _ listed).2 rfl
  have digits := hyphenated_filter (hyphen_not_hex hexes)
  have counted : (hexEncode bytes.val).length = 32 := by
    rw [hexEncode_length, bytes.property]
  have all : (hexEncode bytes.val).all (fun char => (hexValue char).isSome) = true :=
    List.all_eq_true.mpr hexes
  simp only [uuidFromText, utf8, decode_encode, bind, Except.bind, pure, Except.pure,
    unspaced, bare, digits, all, counted, lowered, beq_self_eq_true, Bool.and_true, if_true]

theorem renderInt_plain (value : Int) : ∀ char ∈ renderInt value, isWhitespace char = false := by
  have digits : ∀ number : Nat, ∀ char ∈ renderNat number, isWhitespace char = false := by
    intro number char listed
    have digit := List.all_eq_true.mp (renderNat_digits number).2 char listed
    rw [Bool.eq_false_iff]
    intro blank
    rw [(whitespace_plain blank).1] at digit
    cases digit
  cases value with
  | ofNat number => exact digits number
  | negSucc number =>
    intro char listed
    rcases List.mem_cons.mp listed with rfl | later
    · rfl
    · exact digits _ char later

variable {width : Width} {value : Int}

theorem Width.holds_iff : width.holds value = true ↔
    -(2 ^ (width.bits - 1) : Int) ≤ value ∧ value < 2 ^ (width.bits - 1) := by
  simp [Width.holds]

theorem integerText_output (held : width.holds value = true) :
    integerText width.bits (encode (renderInt value)) = .ok (encode (renderInt value)) := by
  rw [integerText_ok]
  refine ⟨value, ?_, rfl⟩
  rw [trim_plain (renderInt_plain value)]
  exact parseSigned_renderInt (Width.holds_iff.mp held)

theorem bigEndian_length (size value : Nat) : (bigEndian size value).length = size := by
  induction size generalizing value with
  | zero => rfl
  | succ size ih => rw [bigEndian, List.length_append, ih, List.length_singleton]

theorem bigEndian_value (size value : Nat) :
    (bigEndian size value).foldl (fun value byte => value * 256 + byte.toNat) 0 =
      value % 256 ^ size := by
  induction size generalizing value with
  | zero => simp [bigEndian, Nat.mod_one]
  | succ size ih =>
    have split : value % 256 ^ (size + 1) = value % 256 + 256 * (value / 256 % 256 ^ size) := by
      rw [Nat.pow_succ, Nat.mul_comm, Nat.mod_mul]
    rw [bigEndian, List.foldl_append, ih, split]
    simp only [List.foldl_cons, List.foldl_nil, UInt8.toNat_ofNat']
    rw [show (2 : Nat) ^ 8 = 256 from rfl]
    omega

theorem signedBe_binary (held : width.holds value = true) :
    signedBe (Datum.integer width value).binary = value := by
  have bounds := Width.holds_iff.mp held
  simp only [signedBe, Datum.binary, bigEndian_value, bigEndian_length]
  cases width with
  | int2 =>
    simp only [Width.bits, Nat.reduceSub, Nat.reduceDiv, Nat.reducePow, Int.reducePow] at bounds ⊢
    split_ifs <;> omega
  | int4 =>
    simp only [Width.bits, Nat.reduceSub, Nat.reduceDiv, Nat.reducePow, Int.reducePow] at bounds ⊢
    split_ifs <;> omega
  | int8 =>
    simp only [Width.bits, Nat.reduceSub, Nat.reduceDiv, Nat.reducePow, Int.reducePow] at bounds ⊢
    split_ifs <;> omega

theorem integerBinary_output (held : width.holds value = true) :
    integerBinary (width.bits / 8) (Datum.integer width value).binary =
      .ok (encode (renderInt value)) := by
  have sizes : (Datum.integer width value).binary.length = width.bits / 8 := bigEndian_length _ _
  simp only [integerBinary, fixed, sizes, if_true, bind, Except.bind, pure, Except.pure,
    signedBe_binary held]

variable {column : PgType} {oid : Nat} {held : Datum}

theorem canonical_output (keyed : keyOid column = some oid) (typed : held.hasType column = true)
    (format : Format) :
    canonicalBytes oid format (held.wire format) = .ok (encode held.output) := by
  cases keyDatum keyed typed with
  | @integer width value fits =>
    have spelled := integerText_output fits
    have sent := integerBinary_output fits
    cases width <;> cases format
    all_goals first | exact spelled | exact sent
  | uuid bytes =>
    cases format with
    | text => exact uuidFromText_output bytes
    | binary =>
      have sizes : bytes.val.length = 16 := bytes.property
      simp [canonicalBytes, Oid.uuid, Oid.text, Oid.varchar, Oid.int2, Oid.int4, Oid.int8,
        Datum.wire, Datum.binary, Datum.output, fixed, sizes]
  | text chars _ textual =>
    cases format <;>
      simp [canonicalBytes, textual, Datum.wire, Datum.binary, Datum.output, utf8, decode_encode]

theorem integer_spelled {width : Nat} {value : Int} {text : List Char} {key : Bytes}
    (read : integerText width (encode text) = .ok key) :
    key = encode (renderInt value) ↔ value = denoted text := by
  obtain ⟨spelled, signed, rfl⟩ := integerText_ok.mp read
  have same := (parseSigned_ok signed).2
  rw [denoted_trim] at same
  constructor
  · intro equal
    rw [← renderInt_inj (encode_inj.mp equal), same]
  · rintro rfl
    rw [same]

theorem uuid_spelled {bytes : Bytes} {text : List Char} {key : Bytes}
    (read : uuidFromText (encode text) = .ok key) :
    key = encode (hyphenated (hexEncode bytes)) ↔ hexDecode (text.filter isHex) = some bytes := by
  obtain ⟨counted, rfl⟩ := uuidFromText_ok read
  have hexes : ∀ digit ∈ text.filter isHex, isHex digit = true :=
    fun digit listed => (List.mem_filter.mp listed).2
  have lowerHex : ∀ digit ∈ (text.filter isHex).map asciiLower, isHex digit = true := by
    intro digit listed
    obtain ⟨upper, member, rfl⟩ := List.mem_map.mp listed
    obtain ⟨value, valued⟩ := Option.isSome_iff_exists.mp (hexes upper member)
    obtain ⟨small, lowered⟩ := lower_of_hexValue valued
    rw [lowered, isHex, hexValue_hexDigit small]
    rfl
  constructor
  · intro equal
    have same := congrArg (List.filter (· ≠ '-')) (encode_inj.mp equal)
    rw [hyphenated_filter (hyphen_not_hex lowerHex),
      hyphenated_filter (hyphen_not_hex (hexEncode_hex bytes).1)] at same
    exact hexDecode_iff.mpr ⟨hexes, same⟩
  · intro spelled
    rw [(hexDecode_iff.mp spelled).2]

theorem text_spelled {chars : List Char} {key : Bytes} {format : Format}
    (textual : oid = Oid.text ∨ oid = Oid.varchar)
    (read : canonicalBytes oid format (encode text) = .ok key) :
    key = encode chars ↔ chars = text := by
  have copied : key = encode text := by
    simpa [canonicalBytes, textual, utf8, decode_encode, eq_comm] using read
  rw [copied]
  exact encode_inj.trans eq_comm

theorem canonical_spelled {key : Bytes} (keyed : keyOid column = some oid)
    (typed : held.hasType column = true) (read : canonicalBytes oid .text (encode text) = .ok key) :
    key = encode held.output ↔ Spelled text held := by
  cases keyDatum keyed typed with
  | @integer width value _ =>
    cases width with
    | int2 => exact @integer_spelled 16 value text key read
    | int4 => exact @integer_spelled 32 value text key read
    | int8 => exact @integer_spelled 64 value text key read
  | uuid bytes => exact @uuid_spelled bytes.val text key read
  | text chars _ textual => exact text_spelled textual read

end Outputs

end Dbsec.StoredKeys
