import Dbsec.ByteLexer

/-! What the splitter's ranges are, and putting the text back together along them:
`reassemble` of proxy/src/encrypt/lexer.rs with the slices it takes of the text. A count of
ranges other than that of the statements is the documented way out, in which every
statement is rendered and the client's text is given up. -/
namespace Dbsec.Reassembly
open Framing Params Text Loops Lexer ByteLexer ArrayText

def slice (sql : Bytes) (start stop : Nat) : Bytes := (sql.drop start).take (stop - start)

/-- The gaps and the ranges, one after the other, from `cursor` to the end. -/
def interleaved (sql : Bytes) : Nat → List Range → Bytes
  | cursor, [] => slice sql cursor sql.length
  | cursor, range :: ranges =>
    slice sql cursor range.1 ++ slice sql range.1 range.2 ++ interleaved sql range.2 ranges

def gaps (sql : Bytes) : Nat → List Range → List Bytes
  | cursor, [] => [slice sql cursor sql.length]
  | cursor, range :: ranges => slice sql cursor range.1 :: gaps sql range.2 ranges

/-- What a list of ranges says of the text from `cursor` on. -/
structure Splits (sql : Bytes) (cursor : Nat) (ranges : List Range) : Prop where
  nonempty : ∀ range ∈ ranges, range.1 < range.2
  /-- Increasing, and no two overlap. -/
  ordered : ranges.Pairwise fun left right => left.2 ≤ right.1
  inside : ∀ range ∈ ranges, cursor ≤ range.1 ∧ range.2 ≤ sql.length
  boundaries : ∀ range ∈ ranges,
    isCharBoundary sql range.1 = true ∧ isCharBoundary sql range.2 = true
  tight : ∀ range ∈ ranges, ∃ piece, slice sql range.1 range.2 = encode piece ∧ Tight piece
  whole : interleaved sql cursor ranges = sql.drop cursor
  outside : ∀ gap ∈ gaps sql cursor ranges, ∃ filler, gap = encode filler ∧
    ∀ char ∈ filler, isWhitespace char = true ∨ char = ';'

section Assembling

variable {Statement : Type} [DecidableEq Statement]

def splice (frontend : Frontend Statement) (sql : Bytes) (out : Bytes) (cursor : Nat) :
    List Range → List Statement → List Bool → Except Fault (Except SessionError Bytes)
  | range :: ranges, statement :: statements, changed :: flags => do
      let gap ← sliceStr sql cursor range.1
      if changed then
        match renderValidated frontend statement with
        | .error error => return .error error
        | .ok text =>
          splice frontend sql (out ++ gap ++ encode text) range.2 ranges statements flags
      else
        let kept ← sliceStr sql range.1 range.2
        splice frontend sql (out ++ gap ++ kept) range.2 ranges statements flags
  | _, _, _ => do
      let rest ← sliceStr sql cursor sql.length
      return .ok (out ++ rest)

def renderAll (frontend : Frontend Statement) (statements : List Statement) :
    Except SessionError Bytes := do
  let rendered ← statements.mapM (renderValidated frontend)
  return encode (joined "; ".toList rendered)

def reassemble (frontend : Frontend Statement) (sql : Bytes) (statements : List Statement)
    (changed : List Bool) : Except Fault (Except SessionError Bytes) := do
  match (← statementRanges sql).filter (·.length = statements.length) with
  | none => return renderAll frontend statements
  | some ranges => splice frontend sql [] 0 ranges statements changed

end Assembling

section Layout

inductive Laid : Nat → List Range → List Char → Prop
  | rest {place : Nat} {gap : List Char} (blank : ∀ char ∈ gap, isFiller char = true) :
      Laid place [] gap
  | next {place first last : Nat} {ranges : List Range} {gap piece rest : List Char}
      (blank : ∀ char ∈ gap, isFiller char = true) (some : piece ≠ []) (tight : Tight piece)
      (begins : first = place + (encode gap).length) (ends : last = first + (encode piece).length)
      (more : Laid last ranges rest) : Laid place ((first, last) :: ranges) (gap ++ piece ++ rest)

variable {place : Nat} {ranges : List Range} {text : List Char}

theorem laid_of_cut (cut : Cut place ranges text) : Laid place ranges text := by
  induction cut with
  | done => exact .rest (List.forall_mem_nil _)
  | @filler place ranges char text blank _ ih =>
    cases ih with
    | rest later => exact .rest (List.forall_mem_cons.mpr ⟨blank, later⟩)
    | next later some tight begins ends more =>
      refine .next (List.forall_mem_cons.mpr ⟨blank, later⟩) some tight ?_ ends more
      rename_i gap _ _ _
      have first : encode (char :: gap) = encode [char] ++ encode gap := encode_append [char] gap
      rw [begins, first, List.length_append, Nat.add_assoc]
  | @piece place ranges piece rest some tight _ ih =>
    have alone : ∀ char ∈ ([] : List Char), isFiller char = true := List.forall_mem_nil _
    exact .next alone some tight rfl rfl ih

theorem slice_between (before run after : List Char) {start stop : Nat}
    (starts : start = (encode before).length) (stops : stop = start + (encode run).length) :
    slice (encode (before ++ run ++ after)) start stop = encode run := by
  subst starts stops
  simp [slice, encode_append]

theorem encode_length_pos {piece : List Char} (some : piece ≠ []) : 0 < (encode piece).length :=
  Nat.lt_of_lt_of_le (List.length_pos_iff.mpr some) (Spellings.length_le_encode piece)

theorem Laid.first_inside (laid : Laid place ranges text) :
    ∀ range ∈ ranges, place ≤ range.1 ∧ range.2 ≤ place + (encode text).length := by
  induction laid with
  | rest => exact List.forall_mem_nil _
  | next _ _ _ begins ends _ ih =>
    have lengths : ∀ gap piece rest : List Char, (encode (gap ++ piece ++ rest)).length =
        (encode gap).length + (encode piece).length + (encode rest).length := by
      intro gap piece rest
      simp only [encode_append, List.length_append]
    refine List.forall_mem_cons.mpr ⟨?_, fun range inside => ?_⟩
    · rw [lengths]
      constructor
      · simp only
        omega
      · simp only
        omega
    · obtain ⟨low, high⟩ := ih range inside
      rw [lengths]
      omega

theorem filler_iff {char : Char} : isFiller char = true ↔
    isWhitespace char = true ∨ char = ';' := by
  rw [isFiller, Bool.or_eq_true, beq_iff_eq]

theorem Laid.splits (laid : Laid place ranges text) :
    ∀ before, place = (encode before).length → Splits (encode (before ++ text)) place ranges := by
  induction laid with
  | @rest place gap blank =>
    intro before starts
    have tail :
        slice (encode (before ++ gap)) place (encode (before ++ gap)).length = encode gap := by
      have found := slice_between before gap [] starts rfl
      rw [List.append_nil] at found
      rw [starts, ← found, encode_append, List.length_append, starts]
    refine ⟨List.forall_mem_nil _, .nil, by simp, by simp, by simp, ?_, ?_⟩
    · rw [interleaved, tail, starts]
      simp [encode_append]
    · refine List.forall_mem_singleton.mpr ⟨gap, tail, fun char inside => ?_⟩
      exact filler_iff.mp (blank char inside)
  | @next place first last ranges gap piece rest blank some tight begins ends more ih =>
    intro before starts
    have firstAt : first = (encode (before ++ gap)).length := by
      rw [begins, starts, encode_append, List.length_append]
    have lastAt : last = (encode (before ++ gap ++ piece)).length := by
      rw [ends, firstAt, encode_append _ piece, List.length_append]
    have later := ih (before ++ gap ++ piece) lastAt
    have regrouped : before ++ (gap ++ piece ++ rest) = before ++ gap ++ piece ++ rest := by simp
    have longer := encode_length_pos some
    have total :
        (encode (before ++ gap ++ piece ++ rest)).length = last + (encode rest).length := by
      rw [encode_append, List.length_append, lastAt]
    have gapAt : slice (encode (before ++ gap ++ piece ++ rest)) place first = encode gap := by
      have found := slice_between before gap (piece ++ rest) starts begins
      rwa [← List.append_assoc] at found
    have pieceAt : slice (encode (before ++ gap ++ piece ++ rest)) first last = encode piece :=
      slice_between (before ++ gap) piece rest firstAt ends
    have follows := more.first_inside
    rw [regrouped]
    refine ⟨?_, ?_, ?_, ?_, ?_, ?_, ?_⟩
    · exact List.forall_mem_cons.mpr ⟨by simp only; omega, later.nonempty⟩
    · exact List.pairwise_cons.mpr ⟨fun range inside => (follows range inside).1, later.ordered⟩
    · refine List.forall_mem_cons.mpr
        ⟨⟨by simp only; omega, by simp only; omega⟩, fun range inside => ?_⟩
      obtain ⟨low, high⟩ := later.inside range inside
      exact ⟨by omega, high⟩
    · refine List.forall_mem_cons.mpr ⟨⟨?_, ?_⟩, later.boundaries⟩
      · have found := boundary_between (before ++ gap) (piece ++ rest)
        rwa [← firstAt, ← List.append_assoc] at found
      · have found := boundary_between (before ++ gap ++ piece) rest
        rwa [← lastAt] at found
    · exact List.forall_mem_cons.mpr ⟨⟨piece, pieceAt, tight⟩, later.tight⟩
    · rw [interleaved, later.whole, gapAt, pieceAt, lastAt, starts]
      simp [encode_append]
    · exact List.forall_mem_cons.mpr
        ⟨⟨gap, gapAt, fun char inside => filler_iff.mp (blank char inside)⟩, later.outside⟩

end Layout

section Unchanged

variable {Statement : Type} [DecidableEq Statement]

/-- No slice faults, and without a changed statement the text comes back. -/
def Keeps (flags : List Bool) (whole : Bytes)
    (spliced : Except Fault (Except SessionError Bytes)) : Prop :=
  ∃ outcome, spliced = .ok outcome ∧ ((∀ flag ∈ flags, flag = false) → outcome = .ok whole)

variable {text : List Char} {place : Nat}

theorem tail_kept {before : List Char} (starts : place = (encode before).length) (flags : List Bool)
    (out : Bytes) :
    Keeps flags (out ++ encode text) (do
      let rest ← sliceStr (encode (before ++ text)) place (encode (before ++ text)).length
      return .ok (out ++ rest)) := by
  have read := sliceStr_between before text []
  rw [List.append_nil, ← starts] at read
  rw [read]
  exact ⟨_, rfl, fun _ => rfl⟩

theorem Laid.spliced (frontend : Frontend Statement) {ranges : List Range}
    (laid : Laid place ranges text) :
    ∀ before statements flags out, place = (encode before).length →
      Keeps flags (out ++ encode text)
        (splice frontend (encode (before ++ text)) out place ranges statements flags) := by
  induction laid with
  | rest blank =>
    intro before statements flags out starts
    rw [splice]
    · exact tail_kept starts flags out
    · exact nofun
  | @next place first last ranges gap piece rest blank some tight begins ends more ih =>
    intro before statements flags out starts
    cases statements with
    | nil =>
      rw [splice]
      · exact tail_kept starts flags out
      · exact nofun
    | cons statement statements =>
      cases flags with
      | nil =>
        rw [splice]
        · exact tail_kept starts [] out
        · exact nofun
      | cons changed flags =>
        have firstAt : first = (encode (before ++ gap)).length := by
          rw [begins, starts, encode_append, List.length_append]
        have lastAt : last = (encode (before ++ gap ++ piece)).length := by
          rw [ends, firstAt, encode_append _ piece, List.length_append]
        have gapRead := sliceStr_between before gap (piece ++ rest)
        have pieceRead := sliceStr_between (before ++ gap) piece rest
        rw [← starts, ← firstAt] at gapRead
        rw [← firstAt, ← lastAt] at pieceRead
        have regrouped :
          before ++ (gap ++ piece ++ rest) = before ++ gap ++ piece ++ rest := by simp
        have whole : out ++ encode (gap ++ piece ++ rest) =
            out ++ encode gap ++ encode piece ++ encode rest := by simp [encode_append]
        rw [← List.append_assoc] at gapRead
        rw [splice, regrouped, gapRead, whole]
        simp only [bind, Except.bind]
        cases changed with
        | true =>
          have altered : ¬ ∀ flag ∈ true :: flags, flag = false := fun all =>
            Bool.noConfusion (all true List.mem_cons_self)
          rw [if_pos rfl]
          cases renderValidated frontend statement with
          | error error => exact ⟨_, rfl, fun all => absurd all altered⟩
          | ok text =>
            obtain ⟨outcome, read, _⟩ := ih (before ++ gap ++ piece) statements flags
              (out ++ encode gap ++ encode text) lastAt
            exact ⟨outcome, read, fun all => absurd all altered⟩
        | false =>
          rw [if_neg Bool.false_ne_true, pieceRead]
          obtain ⟨outcome, read, kept⟩ := ih (before ++ gap ++ piece) statements flags
            (out ++ encode gap ++ encode piece) lastAt
          exact ⟨outcome, read, fun all =>
            kept fun flag inside => all flag (List.mem_cons_of_mem _ inside)⟩

/-- How `reassemble` ends on any text: spliced along its ranges, or rendered. -/
theorem reassemble_outcome (sql : List Char) (frontend : Frontend Statement)
    (statements : List Statement) (changed : List Bool) :
    ∃ found outcome, statementRanges (encode sql) = .ok found ∧
      (∀ ranges, found = some ranges → Laid 0 ranges sql) ∧
      reassemble frontend (encode sql) statements changed = .ok outcome ∧
      (((∃ ranges, found = some ranges ∧ ranges.length = statements.length) ∧
          ((∀ flag ∈ changed, flag = false) → outcome = .ok (encode sql))) ∨
        (∀ ranges, found = some ranges → ranges.length ≠ statements.length) ∧
          outcome = renderAll frontend statements) := by
  obtain ⟨found, read, covered⟩ := statementRanges_cut sql
  have laid : ∀ ranges, found = some ranges → Laid 0 ranges sql :=
    fun ranges same => laid_of_cut (covered ranges same)
  cases found with
  | none =>
    refine ⟨none, _, read, laid, ?_, .inr ⟨by simp, rfl⟩⟩
    rw [reassemble, read]
    rfl
  | some ranges =>
    by_cases count : ranges.length = statements.length
    · obtain ⟨outcome, spliced, kept⟩ :=
        (laid ranges rfl).spliced frontend [] statements changed [] rfl
      refine ⟨_, outcome, read, laid, ?_, .inl ⟨⟨ranges, rfl, count⟩, kept⟩⟩
      simp only [reassemble, read, bind, Except.bind, Option.filter_some, count, decide_true,
        if_true]
      exact spliced
    · refine ⟨_, renderAll frontend statements, read, laid, ?_, .inr ⟨?_, rfl⟩⟩
      · simp only [reassemble, read, bind, Except.bind, Option.filter_some, count, decide_false,
          Bool.false_eq_true, if_false]
        rfl
      · rintro _ ⟨⟩
        exact count

/-- `reassemble` of a text, on which it never faults. -/
def reassembled (frontend : Frontend Statement) (sql : SqlText) (statements : List Statement)
    (changed : List Bool) : Except SessionError Bytes :=
  (reassemble frontend (encode sql) statements changed).toOption.get (by
    obtain ⟨_, outcome, _, _, read, _⟩ := reassemble_outcome sql frontend statements changed
    rw [read]
    rfl)

/-- The splitter ends on every text without a fault, and a comment level below zero would be
one. Its ranges split the text, so that no slice of `reassemble` faults either. Without a
changed statement the text comes back, except where the ranges are not as many as the
statements: there every statement is rendered. -/
theorem reassemble_keeps (sql : List Char) (frontend : Frontend Statement)
    (statements : List Statement) (changed : List Bool) :
    ∃ found outcome, statementRanges (encode sql) = .ok found ∧
      (∀ ranges, found = some ranges → Splits (encode sql) 0 ranges) ∧
      reassemble frontend (encode sql) statements changed = .ok outcome ∧
      (((∃ ranges, found = some ranges ∧ ranges.length = statements.length) ∧
          ((∀ flag ∈ changed, flag = false) → outcome = .ok (encode sql))) ∨
        (∀ ranges, found = some ranges → ranges.length ≠ statements.length) ∧
          outcome = renderAll frontend statements) := by
  obtain ⟨found, outcome, read, laid, assembled, ends⟩ :=
    reassemble_outcome sql frontend statements changed
  exact ⟨found, outcome, read, fun ranges same => (laid ranges same).splits [] rfl, assembled, ends⟩

end Unchanged

def selectOne : Frontend Unit where
  render _ := "SELECT 1".toList
  tokenize _ := .ok []
  parseTokens _ _ := .ok [()]

/-- A comment behind the last separator is a range of its own but no statement, so the text
is not kept although nothing changed. -/
theorem trailing_comment_lost :
    statementRanges (encode "SELECT 1; -- c".toList) = .ok (some [(0, 8), (10, 14)]) ∧
      reassemble selectOne (encode "SELECT 1; -- c".toList) [()] [false] =
        .ok (.ok (encode "SELECT 1".toList)) ∧
      encode "SELECT 1".toList ≠ encode "SELECT 1; -- c".toList := by
  refine ⟨?_, ?_, ?_⟩
  · decide +kernel
  · decide +kernel
  · decide +kernel

end Dbsec.Reassembly
