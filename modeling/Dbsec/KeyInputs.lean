import Dbsec.StoredKeys

/-! Row keys against the server's own reading of the same bytes. A key parameter arrives
in text or binary format; the server reads it with the type's input or receive function,
and text never holds a NUL character. -/
namespace Dbsec.KeyInputs
open Framing Text Spellings Envelope RowKeys StoredKeys

/-- The supported types; a varchar here has no length limit. -/
inductive KeyType where
  | integer (width : Width)
  | text
  | varchar
  | uuid

def KeyType.pg : KeyType → PgType
  | .integer width => .integer width
  | .text => .text
  | .varchar => .varchar none
  | .uuid => .uuid

def KeyType.oid : KeyType → Nat
  | .integer width => width.oid
  | .text => Oid.text
  | .varchar => Oid.varchar
  | .uuid => Oid.uuid

def keyType : PgType → Option KeyType
  | .integer width => some (.integer width)
  | .text => some .text
  | .varchar _ => some .varchar
  | .uuid => some .uuid
  | _ => none

theorem keyType_oid {column : PgType} {oid : Nat} {type : KeyType}
    (keyed : keyOid column = some oid) (known : keyType column = some type) : type.oid = oid := by
  cases column with
  | numeric => cases keyed
  | bpchar limit => cases keyed
  | other name => cases keyed
  | _ =>
    cases known
    exact Option.some.inj keyed

theorem KeyType.keyOid_pg (type : KeyType) : keyOid type.pg = some type.oid := by
  cases type <;> rfl

def serverInput (pg : Pg) (type : KeyType) (format : Format) (bytes : Bytes) : Option Datum :=
  match type, format with
  | .integer width, .binary =>
    if bytes.length = width.bits / 8 then some (.integer width (signedBe bytes)) else none
  | .uuid, .binary => if sized : bytes.length = 16 then some (.uuid ⟨bytes, sized⟩) else none
  | type, _ => do
      let text ← decode bytes
      if '\x00' ∈ text then none else input pg type.pg text

section Integers

variable {char : Char}

theorem space_blank (space : isSpace char = true) : isWhitespace char = true := by
  simp only [isSpace, List.contains_iff_mem, List.mem_cons, List.not_mem_nil, or_false] at space
  rcases space with rfl | rfl | rfl | rfl | rfl | rfl <;> rfl

theorem denoted_stripped (text : List Char) : denoted (stripped text) = denoted text :=
  denoted_trimmed (fun _ space => space_blank space) text

theorem digits_of_parseDigits {digits : List Char} {value : Nat}
    (read : parseDigits digits = some value) :
    ∀ char ∈ digits, isDigit char = true :=
  List.filter_eq_self.mp (parseDigits_ok read).1

variable {text : List Char}

theorem denoted_signed {magnitude : Nat} (read : parseDigits (signed text).2 = some magnitude) :
    (if (signed text).1 then -(magnitude : Int) else magnitude) = denoted text := by
  unfold signed at read ⊢
  split
  · rename_i digits
    have parsed : parseDigits digits = some magnitude := read
    obtain ⟨kept, _, rfl⟩ := parseDigits_ok parsed
    rw [denoted, if_pos rfl, if_pos List.mem_cons_self, List.filter_cons_of_neg (by decide), kept]
  · rename_i digits
    have parsed : parseDigits digits = some magnitude := read
    obtain ⟨kept, unsigned, rfl⟩ := parseDigits_ok parsed
    rw [denoted, if_neg Bool.false_ne_true, if_neg (by simpa using unsigned),
      List.filter_cons_of_neg (by decide), kept]
  · rename_i notMinus notPlus
    split at read
    · exact absurd rfl (notMinus _)
    · exact absurd rfl (notPlus _)
    · obtain ⟨kept, unsigned, rfl⟩ := parseDigits_ok read
      rw [denoted, if_neg Bool.false_ne_true, if_neg unsigned, kept]

variable {width : Nat} {value : Int}

/-- The characters of an integer, with signs and white space anywhere. -/
def Integral (text : List Char) : Prop :=
  ∀ char ∈ text, isWhitespace char = true ∨ isDigit char = true ∨ char = '-' ∨ char = '+'

theorem integral_parsed (read : parseSigned width (trim text) = some value) : Integral text := by
  intro char listed
  by_cases blank : isWhitespace char = true
  · exact .inl blank
  · right
    have kept : char ∈ text.filter (!isWhitespace ·) :=
      List.mem_filter.mpr ⟨listed, by simpa using blank⟩
    rw [← @filter_trimmed (!isWhitespace ·) isWhitespace (by simp) text] at kept
    have inside : char ∈ trim text := (List.mem_filter.mp kept).1
    simp only [parseSigned, Option.bind_eq_bind] at read
    split at read
    · rename_i digits spelled
      obtain ⟨magnitude, counted, _⟩ := Option.bind_eq_some_iff.mp read
      obtain ⟨count, coerced, rfl⟩ := Option.map_eq_some_iff.mp counted
      obtain ⟨plain, parsed, _⟩ := Option.bind_eq_some_iff.mp coerced
      rw [spelled] at inside
      rcases List.mem_cons.mp inside with rfl | later
      · exact .inr (.inl rfl)
      · exact .inl (digits_of_parseDigits parsed char later)
    · rename_i digits spelled
      obtain ⟨magnitude, counted, _⟩ := Option.bind_eq_some_iff.mp read
      obtain ⟨count, parsed, rfl⟩ := Option.map_eq_some_iff.mp counted
      rw [spelled] at inside
      rcases List.mem_cons.mp inside with rfl | later
      · exact .inr (.inr rfl)
      · exact .inl (digits_of_parseDigits parsed char later)
    · obtain ⟨magnitude, counted, _⟩ := Option.bind_eq_some_iff.mp read
      obtain ⟨count, parsed, rfl⟩ := Option.map_eq_some_iff.mp counted
      exact .inl (digits_of_parseDigits parsed char inside)

theorem marked_char (marked : char ∈ ['x', 'X', 'o', 'O', 'b', 'B', '_']) :
    ¬ (isWhitespace char = true ∨ isDigit char = true ∨ char = '-' ∨ char = '+') := by
  simp only [List.mem_cons, List.not_mem_nil, or_false] at marked
  rcases marked with rfl | rfl | rfl | rfl | rfl | rfl | rfl <;> decide

theorem integerInput_denoted {pg : Pg} {held : Int} (integral : Integral text)
    (read : integerInput pg text = some held) : held = denoted text := by
  unfold integerInput at read
  dsimp only at read
  split at read
  · rename_i magnitude parsed
    have spelled := denoted_signed parsed
    rw [denoted_stripped] at spelled
    rw [← spelled]
    exact (Option.some.inj read).symm
  · obtain ⟨char, listed, marked⟩ := pg.otherInteger_marked _ _ read
    exact absurd (integral char listed) (marked_char marked)

theorem bigEndian_lt (bytes : Bytes) :
    bytes.foldl (fun value byte => value * 256 + byte.toNat) 0 < 256 ^ bytes.length := by
  induction bytes using List.reverseRecOn with
  | nil => exact Nat.one_pos
  | append_singleton rest byte ih =>
    rw [List.foldl_append, List.length_append, List.length_singleton, Nat.pow_succ]
    have small := byte.toNat_lt
    simp only [List.foldl_cons, List.foldl_nil]
    omega

theorem signedBe_holds {width : Width} {bytes : Bytes} (size : bytes.length = width.bits / 8) :
    width.holds (signedBe bytes) = true := by
  have bound := bigEndian_lt bytes
  rw [Width.holds_iff, signedBe]
  rw [size] at bound ⊢
  cases width with
  | int2 =>
    simp only [Width.bits, Nat.reduceSub, Nat.reduceDiv, Nat.reducePow, Int.reducePow] at bound ⊢
    split_ifs <;> omega
  | int4 =>
    simp only [Width.bits, Nat.reduceSub, Nat.reduceDiv, Nat.reducePow, Int.reducePow] at bound ⊢
    split_ifs <;> omega
  | int8 =>
    simp only [Width.bits, Nat.reduceSub, Nat.reduceDiv, Nat.reducePow, Int.reducePow] at bound ⊢
    split_ifs <;> omega

end Integers

section Uuids

variable {text : List Char}

theorem uuidDigits_hex {count : Nat} {digits : List Char}
    (read : uuidDigits count text = some digits) :
    digits = text.filter isHex := by
  fun_induction uuidDigits count text generalizing digits with
  | case1 count =>
    cases read
    rfl
  | case2 => cases read
  | case3 => cases read
  | case4 count rest _ _ _ ih =>
    rw [List.filter_cons_of_neg (by decide)]
    exact ih read
  | case5 => cases read
  | case6 count char rest _ hex ih =>
    obtain ⟨more, tail, rfl⟩ := Option.map_eq_some_iff.mp read
    rw [List.filter_cons_of_pos (show isHex char = true from hex), ih tail]
  | case7 => cases read

theorem uuidInput_hex {bytes : Block 16} (read : uuidInput text = some bytes) :
    hexDecode (text.filter isHex) = some bytes.val := by
  simp only [uuidInput, Option.bind_eq_bind, Option.bind_eq_some_iff] at read
  obtain ⟨inner, opened, digits, scanned, decoded, hexed, sized⟩ := read
  have same : inner.filter isHex = text.filter isHex := by
    split at opened
    · rename_i rest
      split at opened
      · rename_i closed
        cases opened
        obtain ⟨body, rfl⟩ := List.getLast?_eq_some_iff.mp closed
        rw [List.dropLast_concat, List.filter_cons_of_neg (by decide), List.filter_append]
        simp [isHex, show hexValue '\x7d' = none from rfl]
      · cases opened
    · cases opened
      rfl
  rw [← same, ← uuidDigits_hex scanned, hexed]
  split at sized
  · cases sized
    rfl
  · cases sized

end Uuids

section Inputs

theorem integer_oid {width : Width} {text : List Char} {key : Bytes}
    (read : canonicalBytes width.oid .text (encode text) = .ok key) :
    ∃ value, parseSigned width.bits (trim text) = some value := by
  have parsed : integerText width.bits (encode text) = .ok key := by
    cases width <;> exact read
  obtain ⟨value, signed, _⟩ := integerText_ok.mp parsed
  exact ⟨value, signed⟩

theorem input_spelled {pg : Pg} {type : KeyType} {text : List Char} {key : Bytes} {held : Datum}
    (canonical : canonicalBytes type.oid .text (encode text) = .ok key)
    (read : input pg type.pg text = some held) : Spelled text held := by
  cases type with
  | integer width =>
    obtain ⟨value, parsed⟩ := integer_oid canonical
    obtain ⟨number, taken, fits⟩ := Option.bind_eq_some_iff.mp read
    have same := integerInput_denoted (integral_parsed parsed) taken
    unfold fit at fits
    split at fits
    · cases fits
      exact same
    · cases fits
  | text =>
    cases read
    rfl
  | varchar =>
    cases read
    rfl
  | uuid =>
    obtain ⟨bytes, taken, rfl⟩ := Option.map_eq_some_iff.mp read
    exact uuidInput_hex taken

theorem serverInput_text {pg : Pg} {type : KeyType} {bytes key : Bytes} {held : Datum}
    (canonical : canonicalBytes type.oid .text bytes = .ok key)
    (read : serverInput pg type .text bytes = some held) :
    held.hasType type.pg = true ∧ key = encode held.output := by
  obtain ⟨text, decoded, taken⟩ : ∃ text, decode bytes = some text ∧
      input pg type.pg text = some held := by
    cases type <;>
      simp only [serverInput, Option.bind_eq_bind, Option.bind_eq_some_iff] at read <;>
      · obtain ⟨text, decoded, taken⟩ := read
        split at taken
        · cases taken
        · exact ⟨text, decoded, taken⟩
  rw [← encode_decode decoded] at canonical
  have typed := input_typed taken
  exact ⟨typed, (canonical_spelled type.keyOid_pg typed canonical).mpr
    (input_spelled canonical taken)⟩

theorem serverInput_key {pg : Pg} {type : KeyType} {format : Format} {bytes key : Bytes}
    {held : Datum} (canonical : canonicalBytes type.oid format bytes = .ok key)
    (read : serverInput pg type format bytes = some held) :
    held.hasType type.pg = true ∧ key = encode held.output := by
  cases format with
  | text => exact serverInput_text canonical read
  | binary =>
    cases type with
    | integer width =>
      simp only [serverInput] at read
      split at read
      · rename_i size
        cases read
        refine ⟨by simp [Datum.hasType, KeyType.pg, signedBe_holds size], ?_⟩
        have parsed : integerBinary (width.bits / 8) bytes = .ok key := by
          cases width <;> exact canonical
        simp only [integerBinary, fixed, size, if_true, bind, Except.bind, pure, Except.pure,
          Except.ok.injEq] at parsed
        exact parsed.symm
      · cases read
    | uuid =>
      simp only [serverInput] at read
      split at read
      · rename_i size
        cases read
        refine ⟨rfl, ?_⟩
        have parsed : (fun body => encode (hyphenated (hexEncode body))) <$> fixed 16 bytes =
          .ok key := canonical
        simp only [fixed, size, if_true, Functor.map, Except.map, Except.ok.injEq] at parsed
        exact parsed.symm
      · cases read
    -- Text is sent the same way in both formats.
    | text => exact @serverInput_text pg .text bytes key held canonical read
    | varchar => exact @serverInput_text pg .varchar bytes key held canonical read

theorem output_inj {type : PgType} {oid : Nat} {left right : Datum} (keyed : keyOid type = some oid)
    (leftTyped : left.hasType type = true) (rightTyped : right.hasType type = true)
    (same : left.output = right.output) : left = right := by
  have typed := keyDatum keyed rightTyped
  cases keyDatum keyed leftTyped with
  | integer _ =>
    cases typed with
    | integer _ => rw [renderInt_inj same]
    | text _ textual _ => cases textual
  | uuid first =>
    cases typed with
    | uuid second =>
      have stripped := congrArg (List.filter (· ≠ '-')) same
      simp only [Datum.output] at stripped
      rw [hyphenated_filter (hyphen_not_hex (hexEncode_hex _).1),
        hyphenated_filter (hyphen_not_hex (hexEncode_hex _).1)] at stripped
      rw [Subtype.ext (hexEncode_inj stripped)]
    | text _ textual _ => cases textual
  | text first textual _ =>
    cases typed with
    | text second _ _ => exact congrArg Datum.text same
    | _ => cases textual

end Inputs

section Constructors

def Constructs (key : RowKey) : Datum → Prop
  | .integer .int2 value => ∃ number : Int16, number.toInt = value ∧ fromI16 number = key
  | .integer .int4 value => ∃ number : Int32, number.toInt = value ∧ fromI32 number = key
  | .integer .int8 value => ∃ number : Int64, number.toInt = value ∧ fromI64 number = key
  | .text chars => fromText chars = key
  | .uuid bytes => fromUuidBytes bytes = key ∧ fromUuid (Datum.uuid bytes).output = .ok key
  | _ => False

theorem constructs_output {type : PgType} {oid : Nat} {held : Datum}
    (keyed : keyOid type = some oid)
    (typed : held.hasType type = true) : Constructs ⟨encode held.output⟩ held := by
  cases keyDatum keyed typed with
  | @integer width value fits =>
    have bounds := Width.holds_iff.mp fits
    cases width with
    | int2 =>
      have same : (Int16.ofInt value).toInt = value := by
        rw [Int16.toInt_ofInt]
        simp only [Width.bits, Nat.reduceSub, Int.reducePow] at bounds
        exact Int.bmod_eq_of_le (by simp [Int16.size]; omega) (by simp [Int16.size]; omega)
      exact ⟨_, same, by rw [fromI16, same]; rfl⟩
    | int4 =>
      have same : (Int32.ofInt value).toInt = value := by
        rw [Int32.toInt_ofInt]
        simp only [Width.bits, Nat.reduceSub, Int.reducePow] at bounds
        exact Int.bmod_eq_of_le (by simp [Int32.size]; omega) (by simp [Int32.size]; omega)
      exact ⟨_, same, by rw [fromI32, same]; rfl⟩
    | int8 =>
      have same : (Int64.ofInt value).toInt = value := by
        rw [Int64.toInt_ofInt]
        simp only [Width.bits, Nat.reduceSub, Int.reducePow] at bounds
        exact Int.bmod_eq_of_le (by simp [Int64.size]; omega) (by simp [Int64.size]; omega)
      exact ⟨_, same, by rw [fromI64, same]; rfl⟩
  | uuid bytes =>
    refine ⟨rfl, ?_⟩
    have spelled : canonicalBytes Oid.uuid .text (encode (Datum.uuid bytes).output) =
      .ok (encode (Datum.uuid bytes).output) := uuidFromText_output bytes
    rw [fromUuid, canonical, spelled]
    rfl
  | text chars _ _ => rfl

/-- Two inputs the proxy and the server both accept have one key exactly if the server
stores one value for them, and the key is the server's own text of that value, read back
to itself and built by the typed constructor. -/
theorem canonical_faithful (pg : Pg) (type : KeyType) {first second : Format}
    {left right : Bytes} {leftKey rightKey : RowKey} {leftHeld rightHeld : Datum}
    (leftCanonical : canonical type.oid first (some left) = .ok leftKey)
    (rightCanonical : canonical type.oid second (some right) = .ok rightKey)
    (leftRead : serverInput pg type first left = some leftHeld)
    (rightRead : serverInput pg type second right = some rightHeld) :
    (leftKey = rightKey ↔ leftHeld = rightHeld) ∧ leftKey.bytes = encode leftHeld.output ∧
      (∀ format, canonical type.oid format (some (leftHeld.wire format)) = .ok leftKey) ∧
      Constructs leftKey leftHeld := by
  have key : ∀ {format bytes key held}, canonical type.oid format (some bytes) = .ok key →
      serverInput pg type format bytes = some held →
      held.hasType type.pg = true ∧ key = ⟨encode held.output⟩ := by
    intro format bytes key held canonicalised read
    obtain ⟨text, same, parsed⟩ := BoundParams.canonical_ok_iff.mp canonicalised
    cases same
    obtain ⟨typed, named⟩ := serverInput_key parsed read
    exact ⟨typed, congrArg RowKey.mk named⟩
  obtain ⟨leftTyped, rfl⟩ := key leftCanonical leftRead
  obtain ⟨rightTyped, rfl⟩ := key rightCanonical rightRead
  refine ⟨⟨?_, ?_⟩, rfl, ?_, constructs_output type.keyOid_pg leftTyped⟩
  · intro same
    exact output_inj type.keyOid_pg leftTyped rightTyped
      (encode_inj.mp (congrArg RowKey.bytes same))
  · rintro rfl
    rfl
  · intro format
    rw [canonical, canonical_output type.keyOid_pg leftTyped format]
    rfl

theorem padded_and_binary_one_key :
    (fromI32 42 = fromI32 42 ↔ Datum.integer .int4 42 = Datum.integer .int4 42) ∧
      (fromI32 42).bytes = encode (Datum.integer .int4 42).output :=
  have both := canonical_faithful basicPg (.integer .int4)
    (rfl : canonical Oid.int4 .text (some (encode " 0042".toList)) = .ok (fromI32 42))
    (rfl : canonical Oid.int4 .binary (some [0, 0, 0, 42]) = .ok (fromI32 42))
    (by decide +kernel : _ = some (Datum.integer .int4 42))
    (by decide +kernel : _ = some (Datum.integer .int4 42))
  ⟨both.1, both.2.1⟩

end Constructors

end Dbsec.KeyInputs
