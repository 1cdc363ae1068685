import Dbsec.KeyInputs

/-! Literals the server keeps as they are spelled. A condition on the expression, the type
of the key column and the escape setting alone follows the literal through its casts and
its sign, so that what is stored, and what a comparison is true of, is the value its own
characters spell. -/
namespace Dbsec.KeptLiterals
open Framing Text Spellings Envelope RowKeys Sql Catalog Literals Seal BoundParams StoredKeys
  KeyInputs

variable {Query : Type}

/-- The characters of a literal under its casts and parentheses, with its sign. -/
def spelling (expr : Expr Query) : Option (List Char) :=
  match unwrapCasts expr with
  | .value (.singleQuoted text) => some text.toList
  | .value (.escaped text) => some text.toList
  | .value (.unicode text) => some text.toList
  | .value (.national text) => some text.toList
  | .value (.dollarQuoted text _) => some text.toList
  | .value (.number text) => some text.toList
  | .unary (.op .minus) inner => (numberText inner).map ('-' :: ·)
  | .unary (.op .plus) inner => numberText inner
  | _ => none

theorem literalPlaintext_spelling (expr : Expr Query) :
    literalPlaintext expr .text = (spelling expr).map encode := by
  unfold literalPlaintext spelling
  generalize unwrapCasts expr = bare
  split
  case h_7 =>
    rw [Option.map_map]
    rfl
  case h_9 => simp
  all_goals rfl

theorem unwrapCasts_of_bare {expr : Expr Query}
    (uncast : ∀ type inner, expr ≠ .unary (.cast type) inner)
    (bare : ∀ inner, expr ≠ .unary .nested inner) : unwrapCasts expr = expr := by
  unfold unwrapCasts
  split
  · exact absurd rfl (uncast _ _)
  · exact absurd rfl (bare _)
  · rfl

theorem unwrapCasts_idem (expr : Expr Query) :
    unwrapCasts (unwrapCasts expr) = unwrapCasts expr := by
  fun_induction unwrapCasts expr with
  | case1 type inner ih => exact ih
  | case2 inner ih => exact ih
  | case3 other uncast bare => exact unwrapCasts_of_bare uncast bare

theorem rowKeySource_literal {spec : ResolvedRowKey} {expr : Expr Query} {key : RowKey}
    (sourced : rowKeySource spec expr = some (.literal key)) :
    ∃ text, spelling expr = some text ∧
      canonicalBytes spec.typeOid .text (encode text) = .ok key.bytes := by
  unfold rowKeySource at sourced
  split at sourced
  · obtain ⟨index, _, same⟩ := Option.map_eq_some_iff.mp sourced
    cases same
  · obtain ⟨bytes, literal, canonicalised⟩ := Option.bind_eq_some_iff.mp sourced
    rw [literalPlaintext_spelling, spelling, unwrapCasts_idem] at literal
    obtain ⟨text, spelled, rfl⟩ := Option.map_eq_some_iff.mp literal
    refine ⟨text, spelled, ?_⟩
    split at canonicalised
    · rename_i named canonicalKey
      cases canonicalised
      obtain ⟨given, same, read⟩ := canonical_ok_iff.mp canonicalKey
      cases same
      exact read
    · cases canonicalised

section Conditions

/-- What the server prints for the integer that the characters spell. -/
def Printed (text : List Char) : Prop := renderInt (denoted text) = text

/-- An assignment cuts blanks only, where the text is too long. -/
def Unclipped (text : List Char) : PgType → Prop
  | .varchar (some limit) => text.getLast? = some ' ' → text.length ≤ limit
  | _ => True

/-- A cast to the type and back to text gives the same characters. -/
def TextKept (text : List Char) : PgType → Prop
  | .text => True
  | .varchar limit => ∀ most ∈ limit, text.length ≤ most
  | .integer _ => Printed text
  | .numeric => Printed text
  | .uuid => ∃ bytes : Block 16, text = hyphenated (hexEncode bytes.val)
  | _ => False

/-- The casts a literal may go through on its way into a key column. -/
def CastKept (text : List Char) : (column type : PgType) → Prop
  | .integer _, .integer _ => True
  | .integer _, .numeric => True
  | .uuid, .uuid => True
  | .text, type => TextKept text type
  | .varchar _, type => TextKept text type
  | _, _ => False

/-- A text column takes a number only as the server prints it. -/
def NumberKept (text : List Char) : PgType → Prop
  | .integer _ => True
  | .text => Printed text
  | .varchar _ => Printed text
  | _ => False

/-- The literal, spelled `text`, reaches the column as it is spelled. A national literal is
a `bpchar`, whose trailing blanks do not count next to a text. -/
def SpelledOut (pg : Pg) (escapes : Bool) (column : PgType) : List Char → Expr Query → Prop
  | text, .unary .nested inner => SpelledOut pg escapes column text inner
  | text, .unary (.cast type) inner =>
    SpelledOut pg escapes column text inner ∧ CastKept text column (pg.typeNamed type)
  | text, .unary (.op .minus) inner =>
    SpelledOut pg escapes column text.tail inner ∧ NumberKept text column
  | text, .unary (.op .plus) inner => SpelledOut pg escapes column text inner
  | text, .value (.singleQuoted _) => escapes = true → '\\' ∉ text
  | text, .value (.national _) => (escapes = true → '\\' ∉ text) ∧ isTextual column = false
  | text, .value (.number _) => NumberKept text column
  | _, .value (.escaped _) => True
  | _, .value (.unicode _) => True
  | _, .value (.dollarQuoted _ _) => True
  | _, _ => False

/-- The server stores, and compares, the literal as its characters spell it. -/
def ReadAsSpelled (pg : Pg) (escapes : Bool) (column : PgType) (expr : Expr Query) : Prop :=
  ∀ text, spelling expr = some text → SpelledOut pg escapes column text expr ∧ Unclipped text column

end Conditions

section Numbers

def whole : Datum → Option Int
  | .integer _ value => some value
  | .numeric number => if number.scale = 0 then some number.rounded else none
  | _ => none

variable {number : Numeric}

theorem output_whole (scaled : number.scale = 0) : number.output = renderInt number.rounded := by
  obtain ⟨negative, digits, scale⟩ := number
  cases scaled
  have half : (2 * (digits : Int) + 10 ^ 0) / (2 * 10 ^ 0) = digits := by
    omega
  simp only [Numeric.output, Numeric.rounded, half, if_true]
  cases negative with
  | false => rfl
  | true => cases digits <;> rfl

theorem rounded_ofInt (value : Int) : (Numeric.ofInt value).rounded = value := by
  have half : (2 * (value.natAbs : Int) + 10 ^ 0) / (2 * 10 ^ 0) = value.natAbs := by
    omega
  simp only [Numeric.rounded, Numeric.ofInt, half, decide_eq_true_eq]
  split_ifs <;> omega

theorem whole_output {value : Datum} {count : Int} (counted : whole value = some count) :
    asText value = renderInt count := by
  cases value with
  | integer width held =>
    cases counted
    rfl
  | numeric number =>
    simp only [whole] at counted
    split at counted
    · rename_i scaled
      cases counted
      exact output_whole scaled
    · cases counted
  | _ => cases counted

theorem whole_negate {value negated : Datum} {count : Int} (counted : whole value = some count)
    (ran : negate value = some negated) : whole negated = some (-count) := by
  cases value with
  | integer width held =>
    cases counted
    simp only [negate, fit] at ran
    split at ran
    · cases ran
      rfl
    · cases ran
  | numeric number =>
    simp only [whole] at counted
    split at counted
    · rename_i scaled
      cases counted
      cases ran
      simp only [whole, scaled, if_true, Numeric.rounded]
      cases number.negative <;> simp
    · cases counted
  | _ => cases counted

variable {text : List Char}

theorem integral_printed (printed : Printed text) : Integral text := by
  have digits : ∀ count : Nat, ∀ char ∈ renderNat count, isDigit char = true :=
    fun count => List.all_eq_true.mp (renderNat_digits count).2
  intro char listed
  rw [← printed] at listed
  cases sign : denoted text with
  | ofNat count =>
    rw [sign] at listed
    exact .inr (.inl (digits count char listed))
  | negSucc count =>
    rw [sign] at listed
    rcases List.mem_cons.mp listed with rfl | later
    · exact .inr (.inr (.inl rfl))
    · exact .inr (.inl (digits _ char later))

/-- Without a point or an exponent, a decimal number is its digits. -/
theorem decimalNumber_integral (integral : Integral text) :
    decimalNumber text = (parseDigits text).map fun value => ⟨false, value, 0⟩ := by
  have plain : ∀ char ∈ text, char ≠ 'e' ∧ char ≠ 'E' ∧ char ≠ '.' := by
    intro char listed
    refine ⟨?_, ?_, ?_⟩ <;>
      · rintro rfl
        exact absurd (integral _ listed) (by decide)
  have mantissa : text.takeWhile (fun char => char ≠ 'e' && char ≠ 'E') = text :=
    List.takeWhile_eq_self_iff.mpr fun char listed => by
      simp [(plain char listed).1, (plain char listed).2.1]
  have exponent : text.dropWhile (fun char => char ≠ 'e' && char ≠ 'E') = [] :=
    List.dropWhile_eq_nil_iff.mpr fun char listed => by
      simp [(plain char listed).1, (plain char listed).2.1]
  have units : text.takeWhile (· ≠ '.') = text :=
    List.takeWhile_eq_self_iff.mpr fun char listed => by simp [(plain char listed).2.2]
  have fraction : text.dropWhile (· ≠ '.') = [] :=
    List.dropWhile_eq_nil_iff.mpr fun char listed => by simp [(plain char listed).2.2]
  simp only [decimalNumber, mantissa, exponent, exponentOf, units, fraction, List.drop_nil,
    List.append_nil]
  cases parseDigits text <;> simp

theorem integral_stripped (integral : Integral text) : Integral (signed (stripped text)).2 := by
  have inside : ∀ char ∈ stripped text, char ∈ text := by
    intro char listed
    have kept :=
      List.mem_reverse.mp (List.dropWhile_sublist _ |>.subset (List.mem_reverse.mp listed))
    exact (List.dropWhile_sublist _).subset kept
  have below : ∀ char ∈ (signed (stripped text)).2, char ∈ stripped text := by
    intro char listed
    unfold signed at listed
    split at listed
    · rename_i spelled
      rw [spelled]
      exact List.mem_cons_of_mem _ listed
    · rename_i spelled
      rw [spelled]
      exact List.mem_cons_of_mem _ listed
    · exact listed
  exact fun char listed => integral char (inside char (below char listed))

theorem numericInput_integral (integral : Integral text) (read : numericInput text = some number) :
    whole (.numeric number) = some (denoted text) := by
  simp only [numericInput, decimalNumber_integral (integral_stripped integral), Option.map_map,
    Option.map_eq_some_iff, Function.comp_apply] at read
  obtain ⟨magnitude, parsed, rfl⟩ := read
  have spelled := denoted_signed parsed
  rw [denoted_stripped] at spelled
  rw [← spelled]
  simp only [whole, Numeric.rounded, if_true]
  cases (signed (stripped text)).1 <;> simp <;> omega

theorem numberLiteral_whole {value : Datum} (integral : Integral text)
    (read : numberLiteral text = some value) : whole value = some (denoted text) := by
  unfold numberLiteral at read
  split at read
  · rename_i count parsed
    obtain ⟨kept, unsigned, rfl⟩ := parseDigits_ok parsed
    have spelled : denoted text = decimal text := by
      rw [denoted, if_neg unsigned, kept]
    rw [spelled]
    split at read
    · cases read
      rfl
    · split at read
      · cases read
        rfl
      · cases read
        simp only [whole, rounded_ofInt]
        rfl
  · rename_i unparsed
    rw [decimalNumber_integral integral, unparsed] at read
    cases read

end Numbers

section Casts

/-- The value is the one the characters spell, before it has the column's type. -/
def Means (text : List Char) : Datum → Prop
  | .unknown chars => chars = text
  | .text chars => chars = text
  | .bpchar chars => chars = text
  | .integer width value => whole (.integer width value) = some (denoted text)
  | .numeric number => whole (.numeric number) = some (denoted text)
  | .uuid bytes => hexDecode (text.filter isHex) = some bytes.val
  | .other _ _ => False

/-- The server shows the value as it is spelled, and compares it with its blanks. -/
def Shown (text : List Char) (value : Datum) : Prop :=
  asText value = text ∧ ∀ chars, value ≠ .bpchar chars

/-- What a literal's value keeps on its way into the column. -/
structure Carried (column : PgType) (text : List Char) (value : Datum) : Prop where
  means : Means text value
  shown : isTextual column = true → Shown text value
  integral : (∃ width, column = .integer width) → Integral text

variable {text chars : List Char} {count : Int} {value converted result : Datum} {pg : Pg}
  {column type : PgType} {explicit : Bool}

def isNumeral : PgType → Bool
  | .integer _ => true
  | .numeric => true
  | _ => false

theorem sized_numeral (numeral : isNumeral type = true) :
    sized explicit type value = some value := by
  cases type with
  | integer width => rfl
  | numeric => rfl
  | _ => cases numeral

theorem input_whole (numeral : isNumeral type = true) (integral : Integral chars)
    (read : input pg type chars = some result) : whole result = some (denoted chars) := by
  cases type with
  | integer width =>
    obtain ⟨number, taken, fits⟩ := Option.bind_eq_some_iff.mp read
    rw [← integerInput_denoted integral taken]
    unfold fit at fits
    split at fits
    · cases fits
      rfl
    · cases fits
  | numeric =>
    obtain ⟨number, taken, rfl⟩ := Option.map_eq_some_iff.mp read
    exact numericInput_integral integral taken
  | _ => cases numeral

theorem convert_whole (numeral : isNumeral type = true) (counted : whole value = some count)
    (ran : convert pg explicit type value = some result) : whole result = some count := by
  have fitted : ∀ {width : Width}, fit width count = some result → whole result = some count := by
    intro width fits
    unfold fit at fits
    split at fits
    · cases fits
      rfl
    · cases fits
  cases value with
  | integer held number =>
    cases counted
    cases type with
    | integer width => exact fitted ran
    | numeric =>
      cases ran
      simp only [whole, rounded_ofInt]
      rfl
    | _ => cases numeral
  | numeric number =>
    have scaled : number.scale = 0 := by
      simp only [whole] at counted
      split at counted
      · assumption
      · cases counted
    have same : number.rounded = count := by
      simpa [whole, scaled] using counted
    cases type with
    | integer width =>
      rw [← same] at fitted ⊢
      exact fitted ran
    | numeric =>
      cases ran
      exact counted
    | _ => cases numeral
  | _ => cases counted

theorem means_of_whole (counted : whole value = some (denoted text)) : Means text value := by
  cases value with
  | integer width held => exact counted
  | numeric number => exact counted
  | _ => cases counted

theorem convert_numeral (numeral : isNumeral type = true) (integral : Integral text)
    (means : Means text value) (ran : convert pg explicit type value = some result) :
    whole result = some (denoted text) := by
  have read : ∀ chars, chars = text → input pg type chars = some result →
      whole result = some (denoted text) := by
    rintro chars rfl taken
    exact input_whole numeral integral taken
  cases value with
  | unknown chars => exact read chars means ran
  | integer width held => exact convert_whole numeral means ran
  | numeric number => exact convert_whole numeral means ran
  | text chars =>
    cases type with
    | integer width => exact read chars means (Option.ite_none_right_eq_some.mp ran).2
    | numeric => exact read chars means (Option.ite_none_right_eq_some.mp ran).2
    | _ => cases numeral
  | bpchar chars =>
    cases type with
    | integer width => exact read chars means (Option.ite_none_right_eq_some.mp ran).2
    | numeric => exact read chars means (Option.ite_none_right_eq_some.mp ran).2
    | _ => cases numeral
  | uuid bytes =>
    cases type with
    | integer width => cases ran
    | numeric => cases ran
    | _ => cases numeral
  | other name chars => exact means.elim

theorem convert_uuid (means : Means text value)
    (ran : convert pg explicit .uuid value = some result) :
    ∃ bytes, result = .uuid bytes ∧ hexDecode (text.filter isHex) = some bytes.val := by
  have read : ∀ chars, chars = text → input pg .uuid chars = some result →
      ∃ bytes, result = .uuid bytes ∧ hexDecode (text.filter isHex) = some bytes.val := by
    rintro chars rfl taken
    obtain ⟨bytes, found, rfl⟩ := Option.map_eq_some_iff.mp taken
    exact ⟨bytes, rfl, uuidInput_hex found⟩
  cases value with
  | unknown chars => exact read chars means ran
  | text chars => exact read chars means (Option.ite_none_right_eq_some.mp ran).2
  | bpchar chars => exact read chars means (Option.ite_none_right_eq_some.mp ran).2
  | uuid bytes =>
    cases ran
    exact ⟨bytes, rfl, means⟩
  | integer width held => cases ran
  | numeric number => cases ran
  | other name chars => exact means.elim

theorem convert_textual (textual : isTextual type = true) (means : Means text value)
    (shown : Shown text value) (ran : convert pg explicit type value = some result) :
    result = .text text := by
  rw [← shown.1]
  cases value with
  | other name chars => exact means.elim
  | _ =>
    cases type with
    | text =>
      cases ran
      rfl
    | varchar limit =>
      cases ran
      rfl
    | _ => cases textual

theorem hyphenated_hex {bytes held : Block 16} (same : text = hyphenated (hexEncode bytes.val))
    (read : hexDecode (text.filter isHex) = some held.val) :
    hyphenated (hexEncode held.val) = text := by
  have printed := uuidFromText_output bytes
  rw [← same] at printed
  exact (encode_inj.mp ((uuid_spelled printed).mpr read)).symm

theorem shown_whole (printed : Printed text) (counted : whole value = some (denoted text)) :
    Shown text value := by
  constructor
  · rw [whole_output counted]
    exact printed
  · rintro chars rfl
    cases counted

theorem cast_textual (textual : isTextual column = true) (means : Means text value)
    (shown : Shown text value) (kept : TextKept text type)
    (ran : convert pg true type value = some converted)
    (cut : sized true type converted = some result) : Carried column text result := by
  have apart : ¬ ∃ width, column = .integer width := by
    rintro ⟨width, rfl⟩
    cases textual
  have numeral : isNumeral type = true → Printed text → Carried column text result := by
    intro numeral printed
    cases (sized_numeral numeral).symm.trans cut
    have counted := convert_numeral numeral (integral_printed printed) means ran
    exact ⟨means_of_whole counted, fun _ => shown_whole printed counted, fun is => absurd is apart⟩
  cases type with
  | integer width => exact numeral rfl kept
  | numeric => exact numeral rfl kept
  | text =>
    obtain rfl := convert_textual rfl means shown ran
    cases cut
    exact ⟨rfl, fun _ => ⟨rfl, by simp⟩, fun is => absurd is apart⟩
  | varchar limit =>
    obtain rfl := convert_textual rfl means shown ran
    have same : result = .text text := by
      cases limit with
      | none =>
        cases cut
        rfl
      | some most =>
        cases cut
        rw [List.take_of_length_le (kept most rfl)]
    subst same
    exact ⟨rfl, fun _ => ⟨rfl, by simp⟩, fun is => absurd is apart⟩
  | uuid =>
    obtain ⟨canonical, spelled⟩ := kept
    obtain ⟨bytes, rfl, read⟩ := convert_uuid means ran
    cases cut
    exact ⟨read, fun _ => ⟨hyphenated_hex spelled read, by simp⟩, fun is => absurd is apart⟩
  | bpchar limit => exact kept.elim
  | other name => exact kept.elim

/-- One cast on the way into the column. -/
theorem Carried.cast (carried : Carried column text value) (kept : CastKept text column type)
    (ran : convert pg true type value = some converted)
    (cut : sized true type converted = some result) : Carried column text result := by
  obtain ⟨means, shown, integral⟩ := carried
  cases column with
  | integer width =>
    have numeral : isNumeral type = true := by
      cases type with
      | integer other => rfl
      | numeric => rfl
      | _ => exact kept.elim
    cases (sized_numeral numeral).symm.trans cut
    have counted := convert_numeral numeral (integral ⟨width, rfl⟩) means ran
    exact ⟨means_of_whole counted, by simp [isTextual], integral⟩
  | uuid =>
    cases type with
    | uuid =>
      obtain ⟨bytes, rfl, read⟩ := convert_uuid means ran
      cases cut
      exact ⟨read, by simp [isTextual], integral⟩
    | _ => exact kept.elim
  | text => exact cast_textual rfl means (shown rfl) kept ran cut
  | varchar limit => exact cast_textual rfl means (shown rfl) kept ran cut
  | _ => cases type <;> exact kept.elim

end Casts

section Literals

variable {pg : Pg} {escapes : Bool} {column : PgType} {text : List Char} {expr : Expr Query}
  {value : Datum}

theorem unsigned_number (number : numberText expr = some text) (integral : Integral text)
    (evaluated : evaluate pg escapes expr = some value) : '-' ∉ text := by
  induction expr using unwrapCasts.induct generalizing value with
  | case1 type inner ih =>
    obtain ⟨held, here, _⟩ := Option.bind_eq_some_iff.mp evaluated
    exact ih number here
  | case2 inner ih => exact ih number evaluated
  | case3 other uncast bare =>
    unfold numberText at number
    rw [unwrapCasts_of_bare uncast bare] at number
    split at number
    · cases number
      simp only [evaluate, numberLiteral] at evaluated
      split at evaluated
      · rename_i count parsed
        exact (parseDigits_ok parsed).2.1
      · rename_i unparsed
        rw [decimalNumber_integral integral, unparsed] at evaluated
        cases evaluated
    · cases number

theorem denoted_minus (unsigned : '-' ∉ text) : denoted ('-' :: text) = -denoted text := by
  rw [denoted, if_pos List.mem_cons_self, List.filter_cons_of_neg (by decide), denoted,
    if_neg unsigned]

/-- The characters an integer may have, where the column has integers. -/
def Suits (column : PgType) (text : List Char) : Prop :=
  (∃ width, column = .integer width) → Integral text

theorem integral_number (suits : Suits column text) (kept : NumberKept text column) :
    Integral text := by
  cases column with
  | integer width => exact suits ⟨width, rfl⟩
  | text => exact integral_printed kept
  | varchar limit => exact integral_printed kept
  | _ => exact kept.elim

theorem carried_number (suits : Suits column text) (kept : NumberKept text column)
    (counted : whole value = some (denoted text)) : Carried column text value := by
  refine ⟨means_of_whole counted, fun textual => ?_, suits⟩
  cases column with
  | text => exact shown_whole kept counted
  | varchar limit => exact shown_whole kept counted
  | _ => cases textual

theorem spelling_number (number : numberText expr = some text) : spelling expr = some text := by
  unfold numberText at number
  unfold spelling
  split at number
  · rename_i written peeled
    rw [peeled]
    exact number
  · cases number

theorem whole_of_negate {negated : Datum} (means : Means text value)
    (ran : negate value = some negated) : whole value = some (denoted text) := by
  cases value with
  | integer width held => exact means
  | numeric number => exact means
  | _ => cases ran

/-- What a literal evaluates to is what its characters spell. -/
theorem evaluate_carried (suits : Suits column text) (spelled : spelling expr = some text)
    (out : SpelledOut pg escapes column text expr)
    (evaluated : evaluate pg escapes expr = some value) : Carried column text value := by
  have quoted : ∀ chars : List Char, (escapes = true → '\\' ∉ chars) →
      (if escapes then pg.escapes chars else some chars) = some chars := by
    intro chars unescaped
    cases escapes with
    | false => rfl
    | true => exact pg.escapes_plain chars (unescaped rfl)
  fun_induction SpelledOut pg escapes column text expr generalizing value with
  | case1 text inner ih => exact ih suits spelled out evaluated
  | case2 text type inner ih =>
    obtain ⟨held, here, ran⟩ := Option.bind_eq_some_iff.mp evaluated
    obtain ⟨converted, conversion, cut⟩ := Option.bind_eq_some_iff.mp ran
    exact (ih suits spelled out.1 here).cast out.2 conversion cut
  | case3 text inner ih =>
    -- A sign stands before an unsigned number only, so it negates what the digits denote.
    obtain ⟨digits, number, rfl⟩ := Option.map_eq_some_iff.mp spelled
    obtain ⟨held, here, ran⟩ := Option.bind_eq_some_iff.mp evaluated
    have integral : Integral digits := fun char listed =>
      integral_number suits out.2 char (List.mem_cons_of_mem _ listed)
    have carried := ih (fun _ => integral) (spelling_number number) out.1 here
    apply carried_number suits out.2
    rw [denoted_minus (unsigned_number number integral here)]
    exact whole_negate (whole_of_negate carried.means ran) ran
  | case4 text inner ih =>
    obtain ⟨held, here, ran⟩ := Option.bind_eq_some_iff.mp evaluated
    have same : held = value := by
      cases held with
      | integer width count => exact Option.some.inj ran
      | numeric number => exact Option.some.inj ran
      | _ => cases ran
    rw [← same]
    exact ih suits (spelling_number spelled) out here
  | case5 text written =>
    cases spelled
    rw [evaluate, quoted _ out] at evaluated
    cases evaluated
    exact ⟨rfl, fun _ => ⟨rfl, by simp⟩, suits⟩
  | case6 text written =>
    cases spelled
    rw [evaluate, quoted _ out.1] at evaluated
    cases evaluated
    exact ⟨rfl, fun textual => absurd textual (by simp [out.2]), suits⟩
  | case7 text written =>
    cases spelled
    exact carried_number suits out (numberLiteral_whole (integral_number suits out) evaluated)
  | case8 text written =>
    cases spelled
    cases evaluated
    exact ⟨rfl, fun _ => ⟨rfl, by simp⟩, suits⟩
  | case9 text written =>
    cases spelled
    rw [evaluate] at evaluated
    split at evaluated
    · cases evaluated
    · cases evaluated
      exact ⟨rfl, fun _ => ⟨rfl, by simp⟩, suits⟩
  | case10 text written tag =>
    cases spelled
    cases evaluated
    exact ⟨rfl, fun _ => ⟨rfl, by simp⟩, suits⟩
  | case11 => exact out.elim

variable {oid : Nat} {key : Bytes} {held : Datum}

theorem suits_canonical (keyed : keyOid column = some oid)
    (read : canonicalBytes oid .text (encode text) = .ok key) : Suits column text := by
  rintro ⟨width, rfl⟩
  cases keyed
  obtain ⟨value, parsed⟩ := integer_oid read
  exact integral_parsed parsed

theorem within_unclipped {limit : Nat} {kept : List Char}
    (fits : text.getLast? = some ' ' → text.length ≤ limit)
    (cut : within false limit text = some kept) : kept = text := by
  unfold within at cut
  split at cut
  · rename_i blanks
    cases cut
    apply List.take_of_length_le
    by_contra long
    -- What is cut off ends as the text does, in a blank.
    have ending := @List.getLast?_drop _ limit text
    rw [if_neg long] at ending
    cases last : text.getLast? with
    | none => simp [List.getLast?_eq_none_iff.mp last] at long
    | some char =>
      rw [last] at ending
      have blank : char = ' ' := by
        simpa using List.all_eq_true.mp blanks char (List.mem_of_getLast? ending)
      exact long (fits (by rw [last, blank]))
  · cases cut

/-- A conversion to the column's type gives what the characters spell. -/
theorem converted_spelled {explicit : Bool} {converted : Datum} (keyed : keyOid column = some oid)
    (carried : Carried column text value)
    (ran : convert pg explicit column value = some converted) : Spelled text converted := by
  obtain ⟨means, shown, integral⟩ := carried
  cases keyDatum keyed (convert_typed ran) with
  | integer _ => exact Option.some.inj (convert_numeral rfl (integral ⟨_, rfl⟩) means ran)
  | uuid bytes =>
    obtain ⟨found, same, decoded⟩ := convert_uuid means ran
    cases same
    exact decoded
  | text chars textual _ => exact Datum.text.inj (convert_textual textual means (shown textual) ran)

/-- What the column stores for a literal is what its characters spell. -/
theorem stored_spelled (keyed : keyOid column = some oid)
    (read : canonicalBytes oid .text (encode text) = .ok key) (spelled : spelling expr = some text)
    (asSpelled : ReadAsSpelled pg escapes column expr)
    (stores : stored pg escapes column expr = some held) : Spelled text held := by
  obtain ⟨value, evaluated, stores⟩ := Option.bind_eq_some_iff.mp stores
  obtain ⟨converted, conversion, cut⟩ := Option.bind_eq_some_iff.mp stores
  obtain ⟨out, unclipped⟩ := asSpelled text spelled
  have carried := evaluate_carried (suits_canonical keyed read) spelled out evaluated
  have spells := converted_spelled keyed carried conversion
  cases column with
  | varchar limit =>
    obtain rfl := convert_textual rfl carried.means (carried.shown rfl) conversion
    cases limit with
    | none =>
      cases cut
      rfl
    | some limit =>
      obtain ⟨kept, shortened, rfl⟩ := Option.map_eq_some_iff.mp cut
      exact within_unclipped unclipped shortened
  | bpchar limit => cases keyed
  | _ =>
    cases cut
    exact spells

/-- A key that equals the literal is the one its characters spell. -/
theorem compared_spelled {other : Bytes} (keyed : keyOid column = some oid)
    (read : canonicalBytes oid .text (encode text) = .ok key) (spelled : spelling expr = some text)
    (asSpelled : ReadAsSpelled pg escapes column expr)
    (evaluated : evaluate pg escapes expr = some value)
    (equal : equalsKey pg column other value = true) : other = key := by
  have carried := evaluate_carried (suits_canonical keyed read) spelled (asSpelled text spelled).1
    evaluated
  -- A literal that has no type yet takes the column's, as in an assignment.
  have untyped : ∀ chars, value = .unknown chars → other = key := by
    rintro chars rfl
    have taken : (input pg column chars).any (fun held => encode held.output == other) = true := by
      cases column <;> exact equal
    obtain ⟨held, inputs, same⟩ := (Option.any_eq_true _ _).mp taken
    have conversion : convert pg false column (.unknown chars) = some held := by
      cases column <;> exact inputs
    rw [(canonical_spelled keyed (convert_typed conversion) read).mpr
      (converted_spelled keyed carried conversion)]
    exact (beq_iff_eq.mp same).symm
  obtain ⟨means, shown, _⟩ := carried
  have counted : ∀ width count, column = .integer width → count = denoted text →
      encode (renderInt count) = other → other = key := by
    rintro width count rfl same rfl
    cases keyed
    cases width with
    | int2 => exact ((@integer_spelled 16 count text key read).mpr same).symm
    | int4 => exact ((@integer_spelled 32 count text key read).mpr same).symm
    | int8 => exact ((@integer_spelled 64 count text key read).mpr same).symm
  cases value with
  | unknown chars => exact untyped chars rfl
  | integer held count =>
    cases column with
    | integer width => exact counted width count rfl (Option.some.inj means) (beq_iff_eq.mp equal)
    | _ => cases equal
  | numeric number =>
    cases column with
    | integer width =>
      have spelled : number.rounded = denoted text := by
        simp only [Means, whole] at means
        split at means
        · exact Option.some.inj means
        · cases means
      exact counted width _ rfl spelled (beq_iff_eq.mp (Bool.and_eq_true_iff.mp equal).2)
    | _ => cases equal
  | text chars =>
    obtain ⟨named, same⟩ : (oid = Oid.text ∨ oid = Oid.varchar) ∧ encode chars = other := by
      cases column with
      | text => exact ⟨.inl (Option.some.inj keyed).symm, beq_iff_eq.mp equal⟩
      | varchar limit => exact ⟨.inr (Option.some.inj keyed).symm, beq_iff_eq.mp equal⟩
      | _ => cases equal
    rw [(text_spelled named read).mpr means, same]
  | bpchar chars =>
    cases column with
    | text => exact absurd rfl ((shown rfl).2 chars)
    | varchar limit => exact absurd rfl ((shown rfl).2 chars)
    | _ => cases equal
  | uuid bytes =>
    cases column with
    | uuid =>
      cases keyed
      rw [(@uuid_spelled bytes.val text key read).mpr means]
      exact (beq_iff_eq.mp equal).symm
    | _ => cases equal
  | other name chars => exact means.elim

end Literals

end Dbsec.KeptLiterals
