import Dbsec.ArrayText
import Dbsec.Lexer
import Dbsec.Loops

/-! The statement splitter over bytes, as proxy/src/encrypt/lexer.rs runs it: every loop
with its index, every index and slice with the bounds Rust checks, a string slice also with
its character boundaries. The sub-scanners jump by bytes and may stop inside a character,
but every byte they act on is ASCII, and an ASCII byte is a character of its own. -/
namespace Dbsec.ByteLexer
open Framing Text Loops Lexer ArrayText

section Scanning

def byteAt (bytes : Bytes) (index : Nat) : Except Fault UInt8 :=
  match bytes[index]? with
  | some byte => .ok byte
  | none => .error .panic

/-- `&bytes[start..stop]`. -/
def sliceBytes (bytes : Bytes) (start stop : Nat) : Except Fault Bytes :=
  if start ≤ stop ∧ stop ≤ bytes.length then .ok ((bytes.drop start).take (stop - start))
  else .error .panic

def isIdentByte (byte : UInt8) : Bool :=
  (0x30 ≤ byte && byte ≤ 0x39) || (0x41 ≤ byte && byte ≤ 0x5A) || (0x61 ≤ byte && byte ≤ 0x7A) ||
    byte == 0x5F

/-- Whether the literal opened at `start` is of the form E'...'. -/
def backslashEscapes (bytes : Bytes) (start : Nat) (quote : UInt8) : Except Fault Bool :=
  if quote = 0x27 ∧ 0 < start then do
    let marker ← byteAt bytes (start - 1)
    if marker = 0x65 ∨ marker = 0x45 then
      if start = 1 then return true
      else
        let earlier ← byteAt bytes (start - 2)
        return !isIdentByte earlier
    else return false
  else return false

def quotedTurn (bytes : Bytes) (quote : UInt8) (escapes : Bool) (place : Nat) :
    Except Fault (Turn Nat (Option Nat)) :=
  if place < bytes.length then do
    let byte ← byteAt bytes place
    if escapes = true ∧ byte = 0x5C then return .again (place + 2)
    else if byte = quote then
      if bytes[place + 1]? = some quote then return .again (place + 2)
      else return .stop (some (place + 1))
    else return .again (place + 1)
  else return .stop none

def skipQuoted (bytes : Bytes) (start : Nat) : Except Fault (Option Nat) := do
  let quote ← byteAt bytes start
  let escapes ← backslashEscapes bytes start quote
  loop (quotedTurn bytes quote escapes) (bytes.length + 1) (start + 1)

def isDollarTag (tag : Bytes) : Bool :=
  match tag with
  | [] => true
  | first :: _ => !(0x30 ≤ first && first ≤ 0x39) && tag.all fun byte =>
    isIdentByte byte || 0x80 ≤ byte

def closingTurn (bytes tag : Bytes) (place : Nat) : Except Fault (Turn Nat (Option Nat)) :=
  if place + tag.length ≤ bytes.length then do
    let found ← sliceBytes bytes place (place + tag.length)
    if found = tag then return .stop (some (place + tag.length))
    else return .again (place + 1)
  else return .stop none

def skipDollarQuoted (bytes : Bytes) (start : Nat) : Except Fault (Option Nat) := do
  let rest ← sliceBytes bytes (start + 1) bytes.length
  match rest.findIdx? (· = 0x24) with
  | none => return some (start + 1)
  | some length =>
    let name ← sliceBytes bytes (start + 1) (start + 1 + length)
    if isDollarTag name then
      let tag ← sliceBytes bytes start (start + 1 + length + 1)
      loop (closingTurn bytes tag) (bytes.length + 1) (start + 1 + length + 1)
    else return some (start + 1)

/-- A line comment, up to its line break or the end. -/
def skipLineComment (bytes : Bytes) (start : Nat) : Except Fault (Option Nat) := do
  let rest ← sliceBytes bytes start bytes.length
  match rest.findIdx? (· = 0x0A) with
  | none => return some bytes.length
  | some length => return some (start + length)

/-- The nesting depth and the place; a depth below zero is a fault. -/
def commentTurn (bytes : Bytes) (state : Nat × Nat) :
    Except Fault (Turn (Nat × Nat) (Option Nat)) :=
  let (depth, place) := state
  if place + 1 < bytes.length then do
    let first ← byteAt bytes place
    let second ← byteAt bytes (place + 1)
    if first = 0x2F ∧ second = 0x2A then return .again (depth + 1, place + 2)
    else if first = 0x2A ∧ second = 0x2F then
      if depth = 0 then throw .panic
      else if depth - 1 = 0 then return .stop (some (place + 2))
      else return .again (depth - 1, place + 2)
    else return .again (depth, place + 1)
  else return .stop none

def skipBlockComment (bytes : Bytes) (start : Nat) : Except Fault (Option Nat) :=
  loop (commentTurn bytes) (bytes.length + 1) (0, start)

def isCharBoundary (bytes : Bytes) (index : Nat) : Bool :=
  index = 0 || if bytes.length ≤ index then index = bytes.length
    else match bytes[index]? with
      | some byte => !isTail byte
      | none => false

/-- `&sql[start..stop]` of a string. -/
def sliceStr (sql : Bytes) (start stop : Nat) : Except Fault Bytes :=
  if start ≤ stop ∧ isCharBoundary sql start = true ∧ isCharBoundary sql stop = true then
    .ok ((sql.drop start).take (stop - start))
  else .error .panic

def pushStatement (ranges : List Range) (sql : Bytes) (start stop : Nat) :
    Except Fault (List Range) := do
  let text ← sliceStr sql start stop
  match Text.decode text with
  | none => throw .panic
  | some chars =>
    let trimmed := trim chars
    if trimmed.isEmpty then return ranges
    else
      let first := start + (text.length - (encode (chars.dropWhile isWhitespace)).length)
      return ranges ++ [(first, first + (encode trimmed).length)]

structure Scan where
  ranges : List Range
  start : Nat
  place : Nat

/-- Goes on behind what a sub-scanner skipped, or gives up with it. -/
def Scan.past (scan : Scan) : Option Nat → Turn Scan (Option (List Range))
  | none => .stop none
  | some place => .again { scan with place }

def scanTurn (sql : Bytes) (scan : Scan) : Except Fault (Turn Scan (Option (List Range))) :=
  if scan.place < sql.length then do
    let byte ← byteAt sql scan.place
    let next := sql[scan.place + 1]?
    if byte = 0x27 ∨ byte = 0x22 then scan.past <$> skipQuoted sql scan.place
    else if byte = 0x24 then scan.past <$> skipDollarQuoted sql scan.place
    else if byte = 0x2D ∧ next = some 0x2D then scan.past <$> skipLineComment sql scan.place
    else if byte = 0x2F ∧ next = some 0x2A then scan.past <$> skipBlockComment sql scan.place
    else if byte = 0x3B then do
      let ranges ← pushStatement scan.ranges sql scan.start scan.place
      return .again ⟨ranges, scan.place + 1, scan.place + 1⟩
    else return .again { scan with place := scan.place + 1 }
  else do
    let ranges ← pushStatement scan.ranges sql scan.start sql.length
    return .stop (some ranges)

def statementRanges (sql : Bytes) : Except Fault (Option (List Range)) :=
  loop (scanTurn sql) (sql.length + 1) ⟨[], 0, 0⟩

end Scanning

section Progress

variable {bytes : Bytes} {start place : Nat}

def Advances (start : Nat) (found : Option Nat) : Prop := ∀ next, found = some next → start < next

theorem byteAt_inside (inside : place < bytes.length) :
    ∃ byte, byteAt bytes place = .ok byte ∧ bytes[place]? = some byte := by
  have present : bytes[place]? = some bytes[place] := List.getElem?_eq_getElem inside
  exact ⟨bytes[place], by rw [byteAt, present], present⟩

theorem sliceBytes_inside {stop : Nat} (ordered : start ≤ stop) (inside : stop ≤ bytes.length) :
    sliceBytes bytes start stop = .ok ((bytes.drop start).take (stop - start)) :=
  if_pos ⟨ordered, inside⟩

theorem backslashEscapes_total (quote : UInt8) (inside : start < bytes.length) :
    ∃ escapes, backslashEscapes bytes start quote = .ok escapes := by
  unfold backslashEscapes
  split
  · rename_i opened
    obtain ⟨marker, read, _⟩ := @byteAt_inside bytes (start - 1) (by omega)
    rw [read]
    by_cases marked : marker = 0x65 ∨ marker = 0x45
    · by_cases first : start = 1
      · exact ⟨true, by simp only [bind, Except.bind, if_pos marked, if_pos first]; rfl⟩
      · obtain ⟨earlier, before, _⟩ := @byteAt_inside bytes (start - 2) (by omega)
        exact ⟨_, by simp only [bind, Except.bind, if_pos marked, if_neg first, before]; rfl⟩
    · exact ⟨false, by simp only [bind, Except.bind, if_neg marked]; rfl⟩
  · exact ⟨false, rfl⟩

theorem quotedTurn_cases (quote : UInt8) (escapes : Bool) (beyond : start < place) :
    (∃ next, quotedTurn bytes quote escapes place = .ok (.again next) ∧ start < next ∧
        bytes.length - next < bytes.length - place) ∨
      ∃ found, quotedTurn bytes quote escapes place = .ok (.stop found) ∧ Advances start found := by
  unfold quotedTurn
  by_cases inside : place < bytes.length
  · obtain ⟨byte, read, _⟩ := byteAt_inside inside
    simp only [if_pos inside, read, bind, Except.bind]
    by_cases escaped : escapes = true ∧ byte = 0x5C
    · exact .inl ⟨_, if_pos escaped, by omega, by omega⟩
    · rw [if_neg escaped]
      by_cases closing : byte = quote
      · rw [if_pos closing]
        by_cases doubled : bytes[place + 1]? = some quote
        · exact .inl ⟨_, if_pos doubled, by omega, by omega⟩
        · refine .inr ⟨_, if_neg doubled, ?_⟩
          rintro next ⟨⟩
          omega
      · exact .inl ⟨_, if_neg closing, by omega, by omega⟩
  · exact .inr ⟨none, if_neg inside, nofun⟩

theorem skipQuoted_ends (inside : start < bytes.length) :
    ∃ found, skipQuoted bytes start = .ok found ∧ Advances start found := by
  obtain ⟨quote, read, _⟩ := byteAt_inside inside
  obtain ⟨escapes, decided⟩ := backslashEscapes_total quote inside
  simp only [skipQuoted, read, decided, bind, Except.bind]
  exact loop_ends (start < ·) (bytes.length - ·) (fun _ => quotedTurn_cases quote escapes)
    (by omega) (by omega)

theorem closingTurn_cases (tag : Bytes) (beyond : start < place) :
    (∃ next, closingTurn bytes tag place = .ok (.again next) ∧ start < next ∧
        bytes.length + 1 - next < bytes.length + 1 - place) ∨
      ∃ found, closingTurn bytes tag place = .ok (.stop found) ∧ Advances start found := by
  unfold closingTurn
  by_cases inside : place + tag.length ≤ bytes.length
  · simp only [if_pos inside, sliceBytes_inside (Nat.le_add_right place tag.length) inside, bind,
      Except.bind]
    by_cases same : (bytes.drop place).take (place + tag.length - place) = tag
    · refine .inr ⟨_, if_pos same, ?_⟩
      rintro next ⟨⟩
      omega
    · exact .inl ⟨_, if_neg same, by omega, by omega⟩
  · exact .inr ⟨none, if_neg inside, nofun⟩

theorem skipDollarQuoted_ends (inside : start < bytes.length) :
    ∃ found, skipDollarQuoted bytes start = .ok found ∧ Advances start found := by
  have single : Advances start (some (start + 1)) := by
    rintro next ⟨⟩
    omega
  rw [skipDollarQuoted, sliceBytes_inside (by omega) (Nat.le_refl _)]
  simp only [bind, Except.bind]
  cases closed : ((bytes.drop (start + 1)).take (bytes.length - (start + 1))).findIdx?
    (· = 0x24) with
  | none => exact ⟨_, rfl, single⟩
  | some length =>
    obtain ⟨within, _⟩ := List.findIdx?_eq_some_iff_getElem.mp closed
    simp only [List.length_take, List.length_drop] at within
    have named := @sliceBytes_inside bytes (start + 1) (start + 1 + length) (by omega) (by omega)
    have tagged := @sliceBytes_inside bytes start (start + 1 + length + 1) (by omega) (by omega)
    simp only [named, tagged]
    split
    · exact loop_ends (start < ·) (bytes.length + 1 - ·) (fun _ => closingTurn_cases _)
        (by omega) (by omega)
    · exact ⟨_, rfl, single⟩

theorem skipLineComment_ends (dash : bytes[start]? = some 0x2D) :
    ∃ found, skipLineComment bytes start = .ok found ∧ Advances start found := by
  obtain ⟨inside, here⟩ := List.getElem?_eq_some_iff.mp dash
  rw [skipLineComment, sliceBytes_inside (by omega) (Nat.le_refl _)]
  simp only [bind, Except.bind]
  cases ended : ((bytes.drop start).take (bytes.length - start)).findIdx? (· = 0x0A) with
  | none =>
    refine ⟨_, rfl, ?_⟩
    rintro next ⟨⟩
    exact inside
  | some length =>
    refine ⟨_, rfl, ?_⟩
    rintro next ⟨⟩
    -- the comment's own dash is no line break
    have later : length ≠ 0 := by
      rintro rfl
      obtain ⟨within, found, _⟩ := List.findIdx?_eq_some_iff_getElem.mp ended
      simp only [List.getElem_take, List.getElem_drop, Nat.add_zero, here] at found
      exact absurd found (by decide)
    omega

/-- Inside a comment: at its opening with nothing open yet, or beyond it with a level open. -/
def Nested (start : Nat) (state : Nat × Nat) : Prop :=
  state = (0, start) ∨ 0 < state.1 ∧ start < state.2

theorem commentTurn_cases {state : Nat × Nat} (slash : bytes[start]? = some 0x2F)
    (star : bytes[start + 1]? = some 0x2A) (nested : Nested start state) :
    (∃ next, commentTurn bytes state = .ok (.again next) ∧ Nested start next ∧
        bytes.length - next.2 < bytes.length - state.2) ∨
      ∃ found, commentTurn bytes state = .ok (.stop found) ∧ Advances start found := by
  obtain ⟨depth, place⟩ := state
  unfold commentTurn
  by_cases inside : place + 1 < bytes.length
  · obtain ⟨first, read, here⟩ := @byteAt_inside bytes place (by omega)
    obtain ⟨second, readNext, there⟩ := byteAt_inside inside
    simp only [if_pos inside, read, readNext, bind, Except.bind]
    by_cases opens : first = 0x2F ∧ second = 0x2A
    · refine .inl ⟨_, if_pos opens, .inr ⟨Nat.succ_pos _, ?_⟩, by simp only; omega⟩
      rcases nested with begun | ⟨_, beyond⟩
      · cases begun
        simp only
        omega
      · simp only at beyond ⊢
        omega
    · rw [if_neg opens]
      rcases nested with begun | ⟨open', beyond⟩
      · -- the opening itself always opens a level
        cases begun
        rw [slash] at here
        rw [star] at there
        cases here
        cases there
        exact absurd ⟨rfl, rfl⟩ opens
      · simp only at open' beyond
        by_cases closes : first = 0x2A ∧ second = 0x2F
        · rw [if_pos closes, if_neg (by omega)]
          by_cases last : depth - 1 = 0
          · refine .inr ⟨_, if_pos last, ?_⟩
            rintro next ⟨⟩
            omega
          · exact .inl ⟨_, if_neg last, .inr ⟨by simp only; omega, by simp only; omega⟩,
              by simp only; omega⟩
        · exact .inl ⟨_, if_neg closes, .inr ⟨open', by simp only; omega⟩, by simp only; omega⟩
  · exact .inr ⟨none, if_neg inside, nofun⟩

theorem skipBlockComment_ends (slash : bytes[start]? = some 0x2F)
    (star : bytes[start + 1]? = some 0x2A) :
    ∃ found, skipBlockComment bytes start = .ok found ∧ Advances start found :=
  loop_ends (Nested start) (fun state => bytes.length - state.2)
    (fun _ => commentTurn_cases slash star) (.inl rfl) (by simp only; omega)

end Progress

section Boundaries

theorem ascii_at {sql : List Char} {index : Nat} {byte : UInt8} (small : byte.toNat < 0x80)
    (found : (encode sql)[index]? = some byte) :
    ∃ before char after, sql = before ++ char :: after ∧ (encode before).length = index ∧
      isAscii char = true ∧ byte = UInt8.ofNat char.toNat := by
  induction sql generalizing index with
  | nil => cases found
  | cons first rest ih =>
    obtain ⟨lead, more, spelled, high, led⟩ := encodeChar_bytes first
    rw [encode_cons, spelled] at found
    by_cases within : index < (lead :: more).length
    · rw [List.getElem?_append_left within] at found
      cases index with
      | zero =>
        cases found
        rcases led with ⟨ascii, same⟩ | ⟨_, large⟩
        · exact ⟨[], first, rest, rfl, rfl, ascii, same⟩
        · omega
      | succ index =>
        have large := high byte (List.mem_of_getElem? found)
        omega
    · rw [List.getElem?_append_right (by omega)] at found
      obtain ⟨before, char, after, rfl, length, ascii, same⟩ := ih found
      refine ⟨first :: before, char, after, rfl, ?_, ascii, same⟩
      rw [encode_cons, spelled, List.length_append, length]
      omega

theorem encodeChar_lead (char : Char) :
    ∃ lead more, String.utf8EncodeChar char = lead :: more ∧ isTail lead = false := by
  have small : char.toNat < 0x110000 := by
    rcases char.valid with low | ⟨_, high⟩
    · exact Nat.lt_trans low (by decide)
    · exact high
  have outside : ∀ value, value < 0x80 ∨ 0xC0 ≤ value ∧ value < 0x100 →
      isTail (UInt8.ofNat value) = false := by
    intro value apart
    have code : (UInt8.ofNat value).toNat = value := Spellings.byte_toNat (by omega)
    simp only [isTail, Bool.and_eq_false_iff, decide_eq_false_iff_not, UInt8.le_iff_toNat_le, code]
    have low : (0x80 : UInt8).toNat = 0x80 := rfl
    have high : (0xBF : UInt8).toNat = 0xBF := rfl
    omega
  unfold String.utf8EncodeChar
  change ∃ lead more, (if char.toNat ≤ 0x7F then [UInt8.ofNat char.toNat] else
    if char.toNat ≤ 0x7FF then _ else if char.toNat ≤ 0xFFFF then _ else _) = lead :: more ∧ _
  split
  · exact ⟨_, _, rfl, outside _ (by omega)⟩
  · split
    · exact ⟨_, _, rfl, outside _ (by omega)⟩
    · split
      · exact ⟨_, _, rfl, outside _ (by omega)⟩
      · exact ⟨_, _, rfl, outside _ (by omega)⟩

theorem boundary_between (before after : List Char) :
    isCharBoundary (encode (before ++ after)) (encode before).length = true := by
  rw [isCharBoundary, encode_append]
  cases after with
  | nil => simp [encode]
  | cons char rest =>
    obtain ⟨lead, more, spelled, apart⟩ := encodeChar_lead char
    simp [encode_cons, spelled, apart]

theorem sliceStr_between (before run after : List Char) :
    sliceStr (encode (before ++ run ++ after)) (encode before).length
      (encode (before ++ run)).length =
      .ok (encode run) := by
  have first := boundary_between before (run ++ after)
  rw [← List.append_assoc] at first
  have ordered : (encode before).length ≤ (encode (before ++ run)).length := by simp [encode_append]
  rw [sliceStr, if_pos ⟨ordered, first, boundary_between (before ++ run) after⟩]
  simp [encode_append]

end Boundaries

section Cutting

def isFiller (char : Char) : Bool := isWhitespace char || char == ';'

def Tight (piece : List Char) : Prop :=
  (∀ char, piece.head? = some char → isWhitespace char = false) ∧
    ∀ char, piece.getLast? = some char → isWhitespace char = false

/-- The ranges of a text that begins at a byte position: tight runs, with nothing but
whitespace and separators around them. -/
inductive Cut : Nat → List Range → List Char → Prop
  | done {place : Nat} : Cut place [] []
  | filler {place : Nat} {ranges : List Range} {char : Char} {rest : List Char}
      (blank : isFiller char = true) (more : Cut (place + (encode [char]).length) ranges rest) :
      Cut place ranges (char :: rest)
  | piece {place : Nat} {ranges : List Range} {piece rest : List Char} (some : piece ≠ [])
      (tight : Tight piece) (more : Cut (place + (encode piece).length) ranges rest) :
      Cut place ((place, place + (encode piece).length) :: ranges) (piece ++ rest)

theorem Cut.blank {filler : List Char} (blank : ∀ char ∈ filler, isFiller char = true) :
    ∀ place, Cut place [] filler := by
  induction filler with
  | nil => exact fun _ => .done
  | cons char rest ih =>
    intro place
    have later : ∀ char ∈ rest, isFiller char = true := fun char inside =>
      blank char (List.mem_cons_of_mem _ inside)
    exact .filler (blank char List.mem_cons_self) (ih later _)

theorem Cut.append {place : Nat} {ranges more : List Range} {text rest : List Char}
    (cut : Cut place ranges text) (next : Cut (place + (encode text).length) more rest) :
    Cut place (ranges ++ more) (text ++ rest) := by
  induction cut with
  | done => exact next
  | @filler place _ char text blank _ ih =>
    have first : encode (char :: text) = encode [char] ++ encode text := encode_append [char] text
    rw [first, List.length_append, ← Nat.add_assoc] at next
    exact .filler blank (ih next)
  | piece some tight _ ih =>
    rw [encode_append, List.length_append, ← Nat.add_assoc] at next
    rw [List.append_assoc]
    exact .piece some tight (ih next)

theorem trim_parts (run : List Char) :
    ∃ lead trail, run = lead ++ (trim run ++ trail) ∧
      run.dropWhile isWhitespace = trim run ++ trail ∧
      (∀ char ∈ lead, isFiller char = true) ∧ (∀ char ∈ trail, isFiller char = true) := by
  have filler : ∀ {char : Char}, isWhitespace char = true → isFiller char = true := by
    intro char space
    rw [isFiller, space, Bool.true_or]
  have ends : trim run ++ (run.dropWhile isWhitespace).rtakeWhile isWhitespace =
      run.dropWhile isWhitespace := List.rdropWhile_append_rtakeWhile
  refine ⟨run.takeWhile isWhitespace, _, ?_, ends.symm,
    fun _ inside => filler (List.mem_takeWhile_imp inside), fun _ inside =>
      filler (List.mem_rtakeWhile_imp inside)⟩
  rw [ends, List.takeWhile_append_dropWhile]

theorem trim_tight (run : List Char) : Tight (trim run) := by
  constructor
  · intro char first
    obtain ⟨_, trail, _, rest, _⟩ := trim_parts run
    have first' : (run.dropWhile isWhitespace).head? = some char := by
      rw [rest, List.head?_append, first]
      rfl
    have stopped := List.head?_dropWhile_not isWhitespace run
    rw [first'] at stopped
    simpa using stopped
  · intro char last
    have turned :
        ((run.dropWhile isWhitespace).reverse.dropWhile isWhitespace).head? = some char := by
      rw [← last, trim, trimEnd, List.getLast?_reverse]
    have stopped := List.head?_dropWhile_not isWhitespace (run.dropWhile isWhitespace).reverse
    rw [turned] at stopped
    simpa using stopped

theorem pushStatement_cut (ranges : List Range) (before run after : List Char) :
    ∃ more, pushStatement ranges (encode (before ++ run ++ after)) (encode before).length
        (encode (before ++ run)).length = .ok (ranges ++ more) ∧
      Cut (encode before).length more run := by
  rw [pushStatement, sliceStr_between]
  simp only [bind, Except.bind, Spellings.decode_encode]
  obtain ⟨lead, trail, whole, rest, leads, trails⟩ := trim_parts run
  by_cases nothing : (trim run).isEmpty = true
  · refine ⟨[], by rw [if_pos nothing, List.append_nil]; rfl, Cut.blank ?_ _⟩
    intro char inside
    rw [isFiller, (trim_isEmpty run).mp nothing char inside, Bool.true_or]
  · rw [if_neg nothing]
    -- the whitespace in front is what separates the run's start from the range's
    have front : (encode run).length - (encode (run.dropWhile isWhitespace)).length =
        (encode lead).length := by
      have lengths := congrArg (fun text => (encode text).length) whole
      simp only [encode_append, List.length_append, rest] at lengths ⊢
      omega
    refine ⟨_, by rw [front]; rfl, ?_⟩
    have piece : trim run ≠ [] := fun none => nothing (List.isEmpty_iff.mpr none)
    have cut := (Cut.blank leads (encode before).length).append
      (.piece piece (trim_tight run) (Cut.blank trails _))
    rw [← whole] at cut
    exact cut

end Cutting

section Splitting

variable {sql : List Char}

/-- Between two turns: what lies before the current run is cut, and the scan is not behind it. -/
def Scanned (sql : List Char) (scan : Scan) : Prop :=
  ∃ before after, sql = before ++ after ∧ scan.start = (encode before).length ∧
    scan.start ≤ scan.place ∧ Cut 0 scan.ranges before

def Covered (sql : List Char) (found : Option (List Range)) : Prop :=
  ∀ ranges, found = some ranges → Cut 0 ranges sql

variable {scan : Scan}

theorem Scanned.past {found : Option Nat} (scanned : Scanned sql scan)
    (inside : scan.place < (encode sql).length) (advances : Advances scan.place found) :
    (∃ next, scan.past found = .again next ∧ Scanned sql next ∧
        (encode sql).length - next.place < (encode sql).length - scan.place) ∨
      ∃ result, scan.past found = .stop result ∧ Covered sql result := by
  cases found with
  | none => exact .inr ⟨none, rfl, nofun⟩
  | some place =>
    have further := advances place rfl
    obtain ⟨before, after, whole, start, reached, cut⟩ := scanned
    have later : scan.start ≤ place := by omega
    refine .inl ⟨_, rfl, ⟨before, after, whole, start, later, cut⟩, ?_⟩
    simp only
    omega

theorem Scanned.separated (scanned : Scanned sql scan)
    (separator : (encode sql)[scan.place]? = some 0x3B) :
    ∃ ranges, pushStatement scan.ranges (encode sql) scan.start scan.place = .ok ranges ∧
      Scanned sql ⟨ranges, scan.place + 1, scan.place + 1⟩ := by
  obtain ⟨before, after, whole, start, reached, cut⟩ := scanned
  obtain ⟨left, char, right, parts, place, ascii, same⟩ := ascii_at (by decide) separator
  obtain rfl : char = ';' := (ascii_byte ascii (by decide)).mp same.symm
  -- the run begins before the separator, so it is a part of what precedes it
  have begun : ∃ run, left = before ++ run := by
    have shorter : before.length ≤ left.length := by
      by_contra longer
      have inside : left ++ [';'] <+: before := by
        refine List.prefix_of_prefix_length_le ⟨right, ?_⟩ ⟨after, whole.symm⟩ (by simp; omega)
        rw [parts, List.append_assoc]
        rfl
      obtain ⟨more, extended⟩ := inside
      rw [← extended, encode_append, encode_append] at start
      simp only [List.length_append, encode, List.flatMap_cons, List.flatMap_nil] at start place
      have one : (String.utf8EncodeChar ';').length = 1 := by decide
      simp only [one] at start
      omega
    obtain ⟨run, joined⟩ :=
      List.prefix_of_prefix_length_le ⟨after, whole.symm⟩ ⟨_, parts.symm⟩ shorter
    exact ⟨run, joined.symm⟩
  obtain ⟨run, rfl⟩ := begun
  obtain ⟨more, pushed, next⟩ := pushStatement_cut scan.ranges before run (';' :: right)
  rw [← parts, ← start, place] at pushed
  refine ⟨_, pushed, before ++ run ++ [';'], right, ?_, ?_, Nat.le_refl _, ?_⟩
  · rw [parts, List.append_assoc (before ++ run)]
    rfl
  · have one : encode [';'] = [0x3B] := by decide
    rw [encode_append, List.length_append, place, one]
    rfl
  · have separates : ∀ char ∈ [';'], isFiller char = true := List.forall_mem_singleton.mpr rfl
    have joined := (cut.append (by rwa [Nat.zero_add])).append (Cut.blank separates _)
    rwa [List.append_nil] at joined

theorem Scanned.finished (scanned : Scanned sql scan) :
    ∃ ranges, pushStatement scan.ranges (encode sql) scan.start (encode sql).length = .ok ranges ∧
      Cut 0 ranges sql := by
  obtain ⟨before, after, rfl, start, _, cut⟩ := scanned
  obtain ⟨more, pushed, next⟩ := pushStatement_cut scan.ranges before after []
  rw [List.append_nil, ← start] at pushed
  exact ⟨_, pushed, cut.append (by rwa [Nat.zero_add])⟩

theorem scanTurn_cases (scanned : Scanned sql scan) :
    (∃ next, scanTurn (encode sql) scan = .ok (.again next) ∧ Scanned sql next ∧
        (encode sql).length - next.place < (encode sql).length - scan.place) ∨
      ∃ result, scanTurn (encode sql) scan = .ok (.stop result) ∧ Covered sql result := by
  -- a sub-scanner that ends leaves only the question of what it found
  have skipped {outcome : Except Fault (Option Nat)} (inside : scan.place < (encode sql).length)
      (ends : ∃ found, outcome = .ok found ∧ Advances scan.place found) :
      (∃ next, scan.past <$> outcome = .ok (.again next) ∧ Scanned sql next ∧
          (encode sql).length - next.place < (encode sql).length - scan.place) ∨
        ∃ result, scan.past <$> outcome = .ok (.stop result) ∧ Covered sql result := by
    obtain ⟨found, rfl, advances⟩ := ends
    rcases scanned.past inside advances with ⟨next, taken, kept, lower⟩ | ⟨result, taken, covered⟩
    · exact .inl ⟨next, congrArg Except.ok taken, kept, lower⟩
    · exact .inr ⟨result, congrArg Except.ok taken, covered⟩
  unfold scanTurn
  by_cases inside : scan.place < (encode sql).length
  · obtain ⟨byte, read, here⟩ := byteAt_inside inside
    simp only [if_pos inside, read, bind, Except.bind]
    by_cases quote : byte = 0x27 ∨ byte = 0x22
    · rw [if_pos quote]
      exact skipped inside (skipQuoted_ends inside)
    rw [if_neg quote]
    by_cases dollar : byte = 0x24
    · rw [if_pos dollar]
      exact skipped inside (skipDollarQuoted_ends inside)
    rw [if_neg dollar]
    by_cases line : byte = 0x2D ∧ (encode sql)[scan.place + 1]? = some 0x2D
    · rw [if_pos line]
      exact skipped inside (skipLineComment_ends (line.1 ▸ here))
    rw [if_neg line]
    by_cases block : byte = 0x2F ∧ (encode sql)[scan.place + 1]? = some 0x2A
    · rw [if_pos block]
      exact skipped inside (skipBlockComment_ends (block.1 ▸ here) block.2)
    rw [if_neg block]
    by_cases separator : byte = 0x3B
    · obtain ⟨ranges, pushed, kept⟩ := scanned.separated (separator ▸ here)
      rw [if_pos separator, pushed]
      refine .inl ⟨_, rfl, kept, ?_⟩
      simp only
      omega
    · rw [if_neg separator]
      obtain ⟨before, after, whole, start, reached, cut⟩ := scanned
      exact .inl ⟨_, rfl,
        ⟨before, after, whole, start, by simp only; omega, cut⟩, by simp only; omega⟩
  · obtain ⟨ranges, pushed, cut⟩ := scanned.finished
    simp only [if_neg inside, pushed, bind, Except.bind]
    refine .inr ⟨_, rfl, ?_⟩
    rintro _ ⟨⟩
    exact cut

theorem statementRanges_cut (sql : List Char) :
    ∃ found, statementRanges (encode sql) = .ok found ∧ Covered sql found :=
  loop_ends (Scanned sql) (fun scan => (encode sql).length - scan.place) (fun _ => scanTurn_cases)
    ⟨[], sql, rfl, rfl, Nat.le_refl _, .done⟩ (by simp only; omega)

end Splitting

end Dbsec.ByteLexer
