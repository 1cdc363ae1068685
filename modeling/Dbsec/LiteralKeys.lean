import Dbsec.KeptLiterals

/-! Row keys read from the text of a statement: the key `row_key_source` takes from a
literal against the key of the value the server stores for the same expression. Casts are
peeled off and the literal's own characters are canonicalised, so the two agree where the
server keeps those characters through its casts, conversions and escapes. -/
namespace Dbsec.LiteralKeys
open Framing Text Spellings Envelope RowKeys Params Sql Catalog Literals Seal BoundParams StoredKeys
  KeyInputs KeptLiterals

variable {Query : Type}

variable {pg : Pg} {escapes : Bool} {spec : ResolvedRowKey} {column : PgType} {expr : Expr Query}
  {key : RowKey} {held : Datum}

theorem key_of_asSpelled (keyed : keyOid column = some spec.typeOid)
    (asSpelled : ReadAsSpelled pg escapes column expr)
    (sourced : rowKeySource spec expr = some (.literal key))
    (stores : stored pg escapes column expr = some held) : key = ⟨encode held.output⟩ := by
  obtain ⟨text, spelled, read⟩ := rowKeySource_literal sourced
  have spells := stored_spelled keyed read spelled asSpelled stores
  exact congrArg RowKey.mk ((canonical_spelled keyed (stored_typed stores) read).mpr spells)

theorem output_read_back (keyed : keyOid column = some spec.typeOid)
    (stores : stored pg escapes column expr = some held) (format : Format) :
    canonical spec.typeOid format (some (held.wire format)) = .ok ⟨encode held.output⟩ := by
  rw [canonical, canonical_output keyed (stored_typed stores) format]
  rfl

/-- The key `row_key_source` reads from a literal names the value the server stores for it,
in whichever format it is read back, where the server keeps the literal as it is spelled. -/
theorem literal_key_stored (keyed : keyOid column = some spec.typeOid)
    (asSpelled : ReadAsSpelled pg escapes column expr)
    (sourced : rowKeySource spec expr = some (.literal key))
    (stores : stored pg escapes column expr = some held) (format : Format) :
    canonical spec.typeOid format (some (held.wire format)) = .ok key := by
  rw [key_of_asSpelled keyed asSpelled sourced stores]
  exact output_read_back keyed stores format

/-- `-007::int2` in an `int4` column and `'ab'::varchar(2)` in a text column. -/
theorem signed_and_cast_keys_stored :
    (∀ format, canonical Oid.int4 format (some ((Datum.integer .int4 (-7)).wire format)) =
        .ok (fromI32 (-7))) ∧
      ∀ format, canonical Oid.text format (some ((Datum.text "ab".toList).wire format)) =
        .ok (fromText "ab".toList) := by
  constructor
  · refine @literal_key_stored Unit basicPg false ⟨"id", Oid.int4⟩ (.integer .int4)
      (.unary (.op .minus) (.value (.number "007"))) _ _ rfl ?_ rfl (by decide +kernel)
    intro text spelled
    cases spelled
    exact ⟨⟨trivial, trivial⟩, trivial⟩
  · refine @literal_key_stored Unit basicPg false ⟨"code", Oid.text⟩ .text
      (.unary (.cast "VARCHAR(2)") (.value (.singleQuoted "ab"))) _ _ rfl ?_ rfl (by decide +kernel)
    intro text spelled
    cases spelled
    refine ⟨⟨by simp [SpelledOut], ?_⟩, trivial⟩
    intro most limit
    cases limit
    decide

section Plain

def Fits (text : List Char) : PgType → Prop
  | .varchar (some limit) => text.length ≤ limit
  | _ => True

/-- A string the server reads as it is written, or decimal digits for an integer column. -/
def Plain (escapes : Bool) (column : PgType) : Expr Query → Prop
  | .unary .nested inner => Plain escapes column inner
  | .value (.singleQuoted text) => (escapes = true → '\\' ∉ text.toList) ∧ Fits text.toList column
  | .value (.escaped text) => Fits text.toList column
  | .value (.unicode text) => Fits text.toList column
  | .value (.dollarQuoted text _) => Fits text.toList column
  | .value (.number text) => (∃ width, column = .integer width) ∧
    ∃ value, parseDigits text.toList = some value
  | _ => False

theorem unclipped_of_fits {text : List Char} (fits : Fits text column) : Unclipped text column := by
  cases column with
  | varchar limit =>
    cases limit with
    | none => trivial
    | some limit => exact fun _ => fits
  | _ => trivial

theorem plain_asSpelled (plain : Plain escapes column expr) :
    ReadAsSpelled pg escapes column expr := by
  intro text spelled
  fun_induction Plain escapes column expr with
  | case1 inner ih => exact ih plain spelled
  | case2 written =>
    cases spelled
    exact ⟨plain.1, unclipped_of_fits plain.2⟩
  | case6 written =>
    obtain ⟨⟨width, rfl⟩, _⟩ := plain
    exact ⟨trivial, trivial⟩
  | case7 => exact plain.elim
  | _ =>
    cases spelled
    exact ⟨trivial, unclipped_of_fits plain⟩

/-- The key a plain literal is sealed with is read back off its row, in either format. -/
theorem plain_key_read_back {escapes : Bool} {spec : ResolvedRowKey} {expr : Expr Query}
    {key : RowKey} (keyed : keyOid column = some spec.typeOid) (plain : Plain escapes column expr)
    (sourced : rowKeySource spec expr = some (.literal key))
    (stores : stored pg escapes column expr = some held) (format : Format) :
    canonical spec.typeOid format (some (held.wire format)) = .ok key := by
  rw [key_of_asSpelled keyed (plain_asSpelled plain) sourced stores]
  exact output_read_back keyed stores format

theorem quoted_number_read_back :
    canonical Oid.int8 .binary (some ((Datum.integer .int8 42).wire .binary)) = .ok (fromI64 42) :=
  @plain_key_read_back Unit basicPg (.integer .int8) (.integer .int8 42) false ⟨"id", Oid.int8⟩
    (.unary .nested (.value (.singleQuoted " 042"))) _ rfl ⟨by simp, trivial⟩ rfl
    (by decide +kernel) .binary

end Plain

section Witnesses

/-- `'abc'::varchar(2)`. -/
def cutLiteral : Expr Unit := .unary (.cast "VARCHAR(2)") (.value (.singleQuoted "abc"))

/-- A server that reads an unknown escape as the character behind it. -/
def escapingPg : Pg :=
  { basicPg with
    escapes := fun text => some (text.filter (· ≠ '\\'))
    escapes_plain := by
      intro text plain
      refine congrArg some (List.filter_eq_self.mpr ?_)
      intro char listed
      have other : char ≠ '\\' := by
        rintro rfl
        exact plain listed
      simpa using other }

/-- A cast that cuts, a number into a text column and a backslash under escape strings:
the key is read from characters the server does not store. -/
theorem cast_number_and_escape_miskeyed :
    (rowKeySource ⟨"code", Oid.text⟩ cutLiteral = some (.literal (fromText "abc".toList)) ∧
      stored basicPg false .text cutLiteral = some (.text "ab".toList)) ∧
    (rowKeySource ⟨"code", Oid.text⟩ (.value (.number "007") : Expr Unit) =
        some (.literal (fromText "007".toList)) ∧
      stored basicPg false .text (.value (.number "007") : Expr Unit) = some (.text "7".toList)) ∧
    (rowKeySource ⟨"code", Oid.text⟩ (.value (.singleQuoted "a\\qb") : Expr Unit) =
        some (.literal (fromText "a\\qb".toList)) ∧
      stored escapingPg true .text (.value (.singleQuoted "a\\qb") : Expr Unit) =
        some (.text "aqb".toList)) ∧
    canonical Oid.text .text (some ((Datum.text "ab".toList).wire .text)) ≠
      .ok (fromText "abc".toList) := by
  refine ⟨⟨rfl, by decide +kernel⟩, ⟨rfl, by decide +kernel⟩, ⟨rfl, by decide +kernel⟩, ?_⟩
  intro same
  cases same

end Witnesses

end Dbsec.LiteralKeys
