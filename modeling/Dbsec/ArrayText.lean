import Dbsec.ArrayParam
import Dbsec.Spellings

/-! The text array reader over characters. array.rs scans the bytes of the body, and every
byte it looks for is ASCII: a byte of a longer character is never taken for one, and an
escape before such a character carries its first byte and leaves the others to be read as
they are. So the scan is one of characters, and that is how the server reads the text. -/
namespace Dbsec.ArrayText
open Framing Params ArrayParam Text

section Reading

/-- A quoted element up to its closing quote, and what follows it. -/
def quotedChars : List Char → Option (List Char × List Char)
  | [] => none
  | char :: rest =>
    if char = '\\' then
      match rest with
      | [] => none
      | escaped :: rest => (quotedChars rest).map fun read => (escaped :: read.1, read.2)
    else if char = '"' then some ([], rest)
    else (quotedChars rest).map fun read => (char :: read.1, read.2)

/-- A bare element up to its comma, each character with whether it was escaped. -/
def bareChars : List Char → Option (List (Char × Bool) × List Char)
  | [] => some ([], [])
  | char :: rest =>
    if char = ',' then some ([], char :: rest)
    else if char = '\\' then
      match rest with
      | [] => none
      | escaped :: rest => (bareChars rest).map fun read => ((escaped, true) :: read.1, read.2)
    else if char = '\x7b' ∨ char = '\x7d' then none
    else (bareChars rest).map fun read => ((char, false) :: read.1, read.2)

def isAsciiSpace (char : Char) : Bool :=
  char == ' ' || char == '\t' || char == '\n' || char == '\x0c' || char == '\r'

-- What surrounds an element is `space`, and a bare element must be one that `admits`: the
-- reader here and the server's differ in these two only.
variable (space : Char → Bool) (admits : List (Char × Bool) → Bool)

def trimBare (read : List (Char × Bool)) : List (Char × Bool) :=
  (read.reverse.dropWhile fun entry => !entry.2 && space entry.1).reverse

/-- The value of a bare element: nothing escaped and the word NULL is the null element. -/
def bareValue (read : List (Char × Bool)) : Option (List Char) :=
  let text := (trimBare space read).map Prod.fst
  if !read.any Prod.snd && equalIgnoringCase text "null".toList then none else some text

def item (input : List Char) : Option (Option (List Char) × List Char) :=
  if input.head? = some '"' then (quotedChars input.tail).map fun read => (some read.1, read.2)
  else (bareChars input).bind fun read =>
    if admits read.1 then some (bareValue space read.1, read.2) else none

def items : Nat → List Char → Option (List (Option (List Char)))
  | 0, _ => none
  | fuel + 1, input =>
    (item space admits (input.dropWhile space)).bind fun read =>
      match read.2.dropWhile space with
      | [] => some [read.1]
      | char :: rest => if char = ',' then (items fuel rest).map (read.1 :: ·) else none

end Reading

section Equations

theorem quotedChars_escape (escaped : Char) (rest : List Char) :
    quotedChars ('\\' :: escaped :: rest) =
      (quotedChars rest).map fun read => (escaped :: read.1, read.2) := by
  rw [quotedChars.eq_def]
  rfl

theorem quotedChars_close (rest : List Char) : quotedChars ('"' :: rest) = some ([], rest) := by
  rw [quotedChars.eq_def]
  rfl

theorem quotedChars_char {char : Char} (plain : char ≠ '\\') (inside : char ≠ '"')
    (rest : List Char) :
    quotedChars (char :: rest) = (quotedChars rest).map fun read => (char :: read.1, read.2) := by
  rw [quotedChars.eq_def]
  simp only [if_neg plain, if_neg inside]

theorem bareChars_comma (rest : List Char) : bareChars (',' :: rest) = some ([], ',' :: rest) := by
  rw [bareChars.eq_def]
  rfl

theorem bareChars_escape (escaped : Char) (rest : List Char) :
    bareChars ('\\' :: escaped :: rest) =
      (bareChars rest).map fun read => ((escaped, true) :: read.1, read.2) := by
  rw [bareChars.eq_def]
  rfl

theorem bareChars_char {char : Char} (comma : char ≠ ',') (plain : char ≠ '\\')
    (brace : ¬ (char = '\x7b' ∨ char = '\x7d')) (rest : List Char) :
    bareChars (char :: rest) = (bareChars rest).map fun read =>
      ((char, false) :: read.1, read.2) := by
  rw [bareChars.eq_def]
  simp only [if_neg comma, if_neg plain, if_neg brace]

def Ends (after : List Char) : Prop := after = [] ∨ ∃ rest, after = ',' :: rest

variable {after : List Char}

theorem bareChars_ends (ends : Ends after) : bareChars after = some ([], after) := by
  rcases ends with rfl | ⟨rest, rfl⟩
  · rfl
  · exact bareChars_comma rest

variable {space : Char → Bool}

theorem Ends.unspaced (ends : Ends after) (kept : space ',' = false) :
    after.dropWhile space = after := by
  rcases ends with rfl | ⟨rest, rfl⟩
  · rfl
  · exact List.dropWhile_cons_of_neg (by rw [kept]; decide)

theorem item_quoted (space : Char → Bool) (admits : List (Char × Bool) → Bool) (rest : List Char) :
    item space admits ('"' :: rest) = (quotedChars rest).map fun read => (some read.1, read.2) :=
  if_pos rfl

theorem item_bare {admits : List (Char × Bool) → Bool} {input : List Char}
    (bare : input.head? ≠ some '"') :
    item space admits input = (bareChars input).bind fun read =>
      if admits read.1 then some (bareValue space read.1, read.2) else none := if_neg bare

end Equations

section Characters

theorem encode_cons (char : Char) (text : List Char) :
    encode (char :: text) = String.utf8EncodeChar char ++ encode text := rfl

theorem encode_append (left right : List Char) :
    encode (left ++ right) = encode left ++ encode right :=
  List.flatMap_append

/-- The first byte of a character: its code when it is ASCII, otherwise no ASCII byte. -/
def Led (char : Char) (lead : UInt8) : Prop :=
  isAscii char = true ∧ lead = UInt8.ofNat char.toNat ∨ isAscii char = false ∧ 0x80 ≤ lead.toNat

theorem encodeChar_bytes (char : Char) :
    ∃ lead more, String.utf8EncodeChar char = lead :: more ∧ (∀ byte ∈ more, 0x80 ≤ byte.toNat) ∧
      Led char lead := by
  by_cases ascii : isAscii char = true
  · exact ⟨_, _, encodeChar_ascii ascii, nofun, .inl ⟨ascii, rfl⟩⟩
  · have other : isAscii char = false := Bool.eq_false_iff.mpr ascii
    have large : ¬ char.toNat ≤ 0x7F := by
      simp only [isAscii, decide_eq_true_eq] at ascii
      omega
    have tail : ∀ value : Nat, 0x80 ≤ (UInt8.ofNat (value % 64 + 0x80)).toNat := by
      intro value
      rw [Spellings.byte_toNat (by omega)]
      omega
    unfold String.utf8EncodeChar
    change ∃ lead more, (if char.toNat ≤ 0x7F then _ else if char.toNat ≤ 0x7FF then _ else
      if char.toNat ≤ 0xFFFF then _ else _) = lead :: more ∧ _
    rw [if_neg large]
    split
    · refine ⟨_, _, rfl, ?_, .inr ⟨other, ?_⟩⟩
      · exact List.forall_mem_singleton.mpr (tail _)
      · rw [Spellings.byte_toNat (by omega)]
        omega
    · split
      · refine ⟨_, _, rfl, ?_, .inr ⟨other, ?_⟩⟩
        · exact List.forall_mem_cons.mpr ⟨tail _, List.forall_mem_singleton.mpr (tail _)⟩
        · rw [Spellings.byte_toNat (by omega)]
          omega
      · refine ⟨_, _, rfl, ?_, .inr ⟨other, ?_⟩⟩
        · exact List.forall_mem_cons.mpr ⟨tail _,
            List.forall_mem_cons.mpr ⟨tail _, List.forall_mem_singleton.mpr (tail _)⟩⟩
        · rw [Spellings.byte_toNat (by omega)]
          omega

theorem ascii_byte {left right : Char} (leftAscii : isAscii left = true)
    (rightAscii : isAscii right = true) :
    UInt8.ofNat left.toNat = UInt8.ofNat right.toNat ↔ left = right := by
  simp only [isAscii, decide_eq_true_eq] at leftAscii rightAscii
  constructor
  · intro same
    have codes := congrArg UInt8.toNat same
    rw [Spellings.byte_toNat (by omega), Spellings.byte_toNat (by omega)] at codes
    exact Char.toNat_inj.mp codes
  · rintro rfl
    rfl

variable {lead : UInt8}

theorem lead_byte (mark : Char) (markAscii : isAscii mark = true) {char : Char}
    (led : Led char lead) :
    lead = UInt8.ofNat mark.toNat ↔ char = mark := by
  rcases led with ⟨ascii, rfl⟩ | ⟨other, high⟩
  · exact ascii_byte ascii markAscii
  · constructor
    · rintro rfl
      simp only [isAscii, decide_eq_true_eq] at markAscii
      rw [Spellings.byte_toNat (by omega)] at high
      omega
    · rintro rfl
      exact absurd markAscii (Bool.eq_false_iff.mp other)

theorem isAsciiWhitespace_eq (byte : UInt8) :
    isAsciiWhitespace byte = true ↔ byte = UInt8.ofNat ' '.toNat ∨ byte = UInt8.ofNat '\t'.toNat ∨
      byte = UInt8.ofNat '\n'.toNat ∨ byte = UInt8.ofNat '\x0c'.toNat ∨
        byte = UInt8.ofNat '\r'.toNat := by
  simp only [isAsciiWhitespace, Bool.or_eq_true, beq_iff_eq, or_assoc]
  exact Iff.rfl

theorem lead_space {char : Char} (led : Led char lead) :
    isAsciiWhitespace lead = isAsciiSpace char := by
  rw [Bool.eq_iff_iff, isAsciiWhitespace_eq, lead_byte _ (by decide) led,
    lead_byte _ (by decide) led, lead_byte _ (by decide) led, lead_byte _ (by decide) led,
    lead_byte _ (by decide) led]
  simp only [isAsciiSpace, Bool.or_eq_true, beq_iff_eq, or_assoc]

theorem high_not_space {byte : UInt8} (high : 0x80 ≤ byte.toNat) :
    isAsciiWhitespace byte = false := by
  rw [Bool.eq_false_iff]
  intro space
  rcases (isAsciiWhitespace_eq byte).mp space with rfl | rfl | rfl | rfl | rfl <;>
    exact absurd high (by decide)

end Characters

section Lifting

variable {high : Bytes}

theorem quotedBytes_high (large : ∀ byte ∈ high, 0x80 ≤ byte.toNat) (rest : Bytes) :
    quotedBytes (high ++ rest) = (quotedBytes rest).map fun read => (high ++ read.1, read.2) := by
  induction high with
  | nil => exact Option.map_id'.symm
  | cons byte more ih =>
    have this : 0x80 ≤ byte.toNat := large byte List.mem_cons_self
    have notEscape : byte ≠ 0x5C := by
      rintro rfl
      exact absurd this (by decide)
    have notQuote : byte ≠ 0x22 := by
      rintro rfl
      exact absurd this (by decide)
    rw [List.cons_append, quotedBytes.eq_def]
    simp only [if_neg notEscape, if_neg notQuote,
      ih fun byte inside => large byte (List.mem_cons_of_mem _ inside), Option.map_map]
    rfl

theorem unquotedBytes_high (large : ∀ byte ∈ high, 0x80 ≤ byte.toNat) (rest : Bytes) :
    unquotedBytes (high ++ rest) =
      (unquotedBytes rest).map fun read => (high.map (·, false) ++ read.1, read.2) := by
  induction high with
  | nil => exact Option.map_id'.symm
  | cons byte more ih =>
    have this : 0x80 ≤ byte.toNat := large byte List.mem_cons_self
    have other : ∀ mark : UInt8, mark.toNat < 0x80 → byte ≠ mark := by
      rintro mark small rfl
      omega
    rw [List.cons_append, unquotedBytes.eq_def]
    simp only [if_neg (other 0x2C (by decide)), if_neg (other 0x5C (by decide)),
      if_neg (not_or.mpr ⟨other 0x7B (by decide), other 0x7D (by decide)⟩),
      ih fun byte inside => large byte (List.mem_cons_of_mem _ inside), Option.map_map]
    rfl

theorem quotedBytes_encode (text : List Char) :
    quotedBytes (encode text) = (quotedChars text).map fun read =>
      (encode read.1, encode read.2) := by
  fun_induction quotedChars text with
  | case1 => rfl
  | case2 => rfl
  | case3 escaped rest ih =>
    obtain ⟨lead, more, bytes, high, -⟩ := encodeChar_bytes escaped
    have spelled : ∀ after, encode (escaped :: after) = lead :: (more ++ encode after) := by
      intro after
      rw [encode_cons, bytes, List.cons_append]
    have mark : encode ('\\' :: escaped :: rest) = 0x5C :: encode (escaped :: rest) := rfl
    rw [mark, spelled, quotedBytes.eq_def]
    simp only [if_true, quotedBytes_high high, ih, Option.map_map, Function.comp_def, spelled]
  | case4 rest notEscape =>
    have mark : encode ('"' :: rest) = 0x22 :: encode rest := rfl
    rw [mark, quotedBytes.eq_def]
    rfl
  | case5 char rest notEscape notQuote ih =>
    obtain ⟨lead, more, bytes, high, led⟩ := encodeChar_bytes char
    have spelled : ∀ after, encode (char :: after) = lead :: (more ++ encode after) := by
      intro after
      rw [encode_cons, bytes, List.cons_append]
    have plain : lead ≠ 0x5C := fun same => notEscape ((lead_byte '\\' (by decide) led).mp same)
    have inside : lead ≠ 0x22 := fun same => notQuote ((lead_byte '"' (by decide) led).mp same)
    rw [spelled, quotedBytes.eq_def]
    simp only [if_neg plain, if_neg inside, quotedBytes_high high, ih, Option.map_map,
      Function.comp_def, spelled]

/-- The bytes of a bare element: an escape marks the first byte of its character. -/
def bareBytes (read : List (Char × Bool)) : List (UInt8 × Bool) :=
  read.flatMap fun entry =>
    match String.utf8EncodeChar entry.1 with
    | [] => []
    | lead :: more => (lead, entry.2) :: more.map (·, false)

theorem bareBytes_cons {char : Char} {lead : UInt8} {more : Bytes}
    (bytes : String.utf8EncodeChar char = lead :: more) (escaped : Bool)
    (rest : List (Char × Bool)) :
    bareBytes ((char, escaped) :: rest) =
      (lead, escaped) :: (more.map (·, false) ++ bareBytes rest) := by
  simp only [bareBytes, List.flatMap_cons, bytes, List.cons_append]

theorem unquotedBytes_encode (text : List Char) :
    unquotedBytes (encode text) = (bareChars text).map fun read =>
      (bareBytes read.1, encode read.2) := by
  fun_induction bareChars text with
  | case1 => rfl
  | case2 rest =>
    have mark : encode (',' :: rest) = 0x2C :: encode rest := rfl
    rw [mark, unquotedBytes.eq_def]
    rfl
  | case3 => rfl
  | case4 escaped rest _ ih =>
    obtain ⟨lead, more, bytes, high, -⟩ := encodeChar_bytes escaped
    have mark : encode ('\\' :: escaped :: rest) = 0x5C :: lead :: (more ++ encode rest) := by
      rw [encode_cons, encode_cons, bytes]
      rfl
    rw [mark, unquotedBytes.eq_def]
    simp only [if_true, unquotedBytes_high high, ih, Option.map_map, Function.comp_def,
      bareBytes_cons bytes]
    rfl
  | case5 char rest notComma notEscape brace =>
    rcases brace with rfl | rfl
    · have mark : encode ('\x7b' :: rest) = 0x7B :: encode rest := rfl
      rw [mark, unquotedBytes.eq_def]
      rfl
    · have mark : encode ('\x7d' :: rest) = 0x7D :: encode rest := rfl
      rw [mark, unquotedBytes.eq_def]
      rfl
  | case6 char rest notComma notEscape notBrace ih =>
    obtain ⟨lead, more, bytes, high, led⟩ := encodeChar_bytes char
    have comma : lead ≠ 0x2C := fun same => notComma ((lead_byte ',' (by decide) led).mp same)
    have escape : lead ≠ 0x5C := fun same => notEscape ((lead_byte '\\' (by decide) led).mp same)
    have brace : ¬ (lead = 0x7B ∨ lead = 0x7D) := fun same =>
      notBrace (same.imp (lead_byte '\x7b' (by decide) led).mp
        (lead_byte '\x7d' (by decide) led).mp)
    rw [encode_cons, bytes, List.cons_append, unquotedBytes.eq_def]
    simp only [if_neg comma, if_neg escape, if_neg brace, unquotedBytes_high high, ih,
      Option.map_map, Function.comp_def, bareBytes_cons bytes]

theorem bareBytes_append (left right : List (Char × Bool)) :
    bareBytes (left ++ right) = bareBytes left ++ bareBytes right := List.flatMap_append

theorem bareBytes_fst (read : List (Char × Bool)) :
    (bareBytes read).map Prod.fst = encode (read.map Prod.fst) := by
  induction read with
  | nil => rfl
  | cons entry rest ih =>
    obtain ⟨lead, more, bytes, -, -⟩ := encodeChar_bytes entry.1
    rw [bareBytes_cons bytes, List.map_cons, List.map_append, List.map_map, ih, List.map_cons,
      encode_cons, bytes]
    simp [Function.comp_def]

theorem bareBytes_escaped (read : List (Char × Bool)) :
    (bareBytes read).any Prod.snd = read.any Prod.snd := by
  induction read with
  | nil => rfl
  | cons entry rest ih =>
    obtain ⟨lead, more, bytes, -, -⟩ := encodeChar_bytes entry.1
    have unescaped : (more.map (·, false)).any Prod.snd = false := by simp
    rw [bareBytes_cons bytes, List.any_cons, List.any_append, unescaped, ih, List.any_cons,
      Bool.false_or]

theorem trimBare_concat (space : Char → Bool) (init : List (Char × Bool)) (entry : Char × Bool) :
    trimBare space (init ++ [entry]) =
      if !entry.2 && space entry.1 then trimBare space init else init ++ [entry] :=
  List.rdropWhile_concat (fun entry : Char × Bool => !entry.2 && space entry.1) init entry

theorem trimUnescaped_concat (init : List (UInt8 × Bool)) (entry : UInt8 × Bool) :
    trimUnescaped (init ++ [entry]) =
      if !entry.2 && isAsciiWhitespace entry.1 then trimUnescaped init else init ++ [entry] :=
  List.rdropWhile_concat (fun entry : UInt8 × Bool => !entry.2 && isAsciiWhitespace entry.1)
    init entry

theorem trimUnescaped_bareBytes (read : List (Char × Bool)) :
    trimUnescaped (bareBytes read) = bareBytes (trimBare isAsciiSpace read) := by
  induction read using List.reverseRecOn with
  | nil => rfl
  | append_singleton init entry ih =>
    obtain ⟨char, escaped⟩ := entry
    obtain ⟨lead, more, bytes, high, led⟩ := encodeChar_bytes char
    have last : bareBytes [(char, escaped)] = (lead, escaped) :: more.map (·, false) := by
      rw [bareBytes_cons bytes]
      exact congrArg _ (List.append_nil _)
    rw [bareBytes_append, last, trimBare_concat]
    rcases List.eq_nil_or_concat more with rfl | ⟨before, byte, rfl⟩
    · rw [List.map_nil, trimUnescaped_concat, lead_space led]
      split
      · exact ih
      · rw [bareBytes_append, last, List.map_nil]
    · have large : 0x80 ≤ byte.toNat := high byte (by simp)
      have kept : isAsciiSpace char = false := by
        rw [← lead_space led]
        rcases led with ⟨ascii, -⟩ | ⟨-, leads⟩
        · rw [encodeChar_ascii ascii] at bytes
          simp at bytes
        · exact high_not_space leads
      have ending : (lead, escaped) :: (before.concat byte).map (·, false) =
          ((lead, escaped) :: before.map (·, false)) ++ [(byte, false)] := by simp
      rw [ending, ← List.append_assoc, trimUnescaped_concat, high_not_space large, kept,
        Bool.and_false, Bool.and_false, if_neg Bool.false_ne_true, if_neg Bool.false_ne_true,
        bareBytes_append, last, ending, List.append_assoc]

theorem skipWhitespace_encode (text : List Char) :
    skipWhitespace (encode text) = encode (text.dropWhile isAsciiSpace) := by
  induction text with
  | nil => rfl
  | cons char rest ih =>
    obtain ⟨lead, more, bytes, high, led⟩ := encodeChar_bytes char
    by_cases space : isAsciiSpace char = true
    · have dropped : isAsciiWhitespace lead = true := (lead_space led).trans space
      have alone : more = [] := by
        rcases led with ⟨ascii, -⟩ | ⟨-, leads⟩
        · rw [encodeChar_ascii ascii] at bytes
          exact (List.cons.inj bytes).2.symm
        · rw [high_not_space leads] at dropped
          cases dropped
      rw [encode_cons, bytes, alone, List.singleton_append, skipWhitespace,
        List.dropWhile_cons_of_pos dropped, List.dropWhile_cons_of_pos space]
      exact ih
    · have kept : ¬ isAsciiWhitespace lead = true := by
        rw [lead_space led]
        exact space
      rw [List.dropWhile_cons_of_neg space, encode_cons, bytes, List.cons_append, skipWhitespace,
        List.dropWhile_cons_of_neg kept]

theorem quote_encode (text : List Char) :
    (encode text).head? = some 0x22 ↔ text.head? = some '"' := by
  cases text with
  | nil => exact ⟨nofun, nofun⟩
  | cons char rest =>
    obtain ⟨lead, more, bytes, -, led⟩ := encodeChar_bytes char
    rw [encode_cons, bytes, List.cons_append, List.head?_cons, List.head?_cons, Option.some_inj,
      Option.some_inj]
    exact lead_byte '"' (by decide) led

theorem textElement_encode (text : List Char) :
    textElement (encode text) =
      (item isAsciiSpace (fun _ => true) text).map fun read => (read.1, encode read.2) := by
  unfold textElement item
  by_cases quoted : text.head? = some '"'
  · obtain ⟨rest, rfl⟩ : ∃ rest, text = '"' :: rest := by
      cases text with
      | nil => cases quoted
      | cons char rest => exact ⟨rest, congrArg (· :: rest) (Option.some.inj quoted)⟩
    have tail : (encode ('"' :: rest)).tail = encode rest := rfl
    rw [if_pos ((quote_encode _).mpr quoted), if_pos quoted, tail, quotedBytes_encode]
    cases read : quotedChars rest with
    | none => simp [read]
    | some found => simp [read, Spellings.decode_encode]
  · rw [if_neg fun same => quoted ((quote_encode _).mp same), if_neg quoted, unquotedBytes_encode]
    cases read : bareChars text with
    | none => rfl
    | some found =>
      simp only [Option.map_some, Option.bind_eq_bind, Option.bind_some, trimUnescaped_bareBytes,
        bareBytes_fst, bareBytes_escaped, Spellings.decode_encode, bareValue, if_true]
      rfl

theorem textElements_encode (fuel : Nat) (text : List Char) :
    textElements fuel (encode text) = items isAsciiSpace (fun _ => true) fuel text := by
  induction fuel generalizing text with
  | zero => rfl
  | succ fuel ih =>
    simp only [textElements, items, skipWhitespace_encode, textElement_encode]
    cases read : item isAsciiSpace (fun _ => true) (text.dropWhile isAsciiSpace) with
    | none => rfl
    | some found =>
      simp only [Option.map_some, Option.bind_eq_bind, Option.bind_some, skipWhitespace_encode]
      cases after : found.2.dropWhile isAsciiSpace with
      | nil => rfl
      | cons char rest =>
        obtain ⟨lead, more, bytes, -, led⟩ := encodeChar_bytes char
        rw [encode_cons, bytes, List.cons_append]
        by_cases comma : char = ','
        · have mark : lead = 0x2C := (lead_byte ',' (by decide) led).mpr comma
          have alone : more = [] := by
            rw [comma] at bytes
            exact (List.cons.inj bytes).2.symm
          simp only [if_pos mark, if_pos comma, alone, List.nil_append, ih]
          cases items isAsciiSpace (fun _ => true) fuel rest with
          | none => rfl
          | some others => rfl
        · have other : lead ≠ 0x2C := fun same => comma ((lead_byte ',' (by decide) led).mp same)
          simp only [if_neg other, if_neg comma]

end Lifting

section Progress

variable {text : List Char}

theorem quotedChars_suffix {read : List Char × List Char} (found : quotedChars text = some read) :
    read.2 <:+ text := by
  fun_induction quotedChars text generalizing read with
  | case1 => cases found
  | case2 => cases found
  | case3 escaped rest ih =>
    obtain ⟨later, there, rfl⟩ := Option.map_eq_some_iff.mp found
    exact (ih there).trans ((List.suffix_cons _ _).trans (List.suffix_cons _ _))
  | case4 rest =>
    cases found
    exact List.suffix_cons _ _
  | case5 char rest _ _ ih =>
    obtain ⟨later, there, rfl⟩ := Option.map_eq_some_iff.mp found
    exact (ih there).trans (List.suffix_cons _ _)

theorem bareChars_suffix {read : List (Char × Bool) × List Char}
    (found : bareChars text = some read) : read.2 <:+ text := by
  fun_induction bareChars text generalizing read with
  | case1 =>
    cases found
    exact List.suffix_rfl
  | case2 rest =>
    cases found
    exact List.suffix_rfl
  | case3 => cases found
  | case4 escaped rest _ ih =>
    obtain ⟨later, there, rfl⟩ := Option.map_eq_some_iff.mp found
    exact (ih there).trans ((List.suffix_cons _ _).trans (List.suffix_cons _ _))
  | case5 => cases found
  | case6 char rest _ _ _ ih =>
    obtain ⟨later, there, rfl⟩ := Option.map_eq_some_iff.mp found
    exact (ih there).trans (List.suffix_cons _ _)

variable {space : Char → Bool} {admits : List (Char × Bool) → Bool}

theorem item_suffix {input : List Char} {read : Option (List Char) × List Char}
    (found : item space admits input = some read) : read.2 <:+ input := by
  unfold item at found
  split at found
  · obtain ⟨inner, there, rfl⟩ := Option.map_eq_some_iff.mp found
    exact (quotedChars_suffix there).trans (List.tail_suffix _)
  · obtain ⟨inner, there, admitted⟩ := Option.bind_eq_some_iff.mp found
    split at admitted
    · cases admitted
      exact bareChars_suffix there
    · cases admitted

theorem items_succ {fuel : Nat} {body : List Char} {elements : List (Option (List Char))} :
    items space admits (fuel + 1) body = some elements ↔
      ∃ element rest, item space admits (body.dropWhile space) = some (element, rest) ∧
        (rest.dropWhile space = [] ∧ elements = [element] ∨ ∃ next others,
          rest.dropWhile space = ',' :: next ∧ items space admits fuel next = some others ∧
            elements = element :: others) := by
  constructor
  · intro found
    obtain ⟨⟨element, rest⟩, first, found⟩ := Option.bind_eq_some_iff.mp found
    refine ⟨element, rest, first, ?_⟩
    dsimp only at found
    split at found
    · rename_i ended
      exact .inl ⟨ended, (Option.some.inj found).symm⟩
    · rename_i mark next later
      split at found
      · rename_i comma
        obtain ⟨others, read, same⟩ := Option.map_eq_some_iff.mp found
        exact .inr ⟨next, others, by rw [later, comma], read, same.symm⟩
      · cases found
  · rintro ⟨element, rest, first, ⟨ended, rfl⟩ | ⟨next, others, later, read, rfl⟩⟩
    · simp only [items, first, Option.bind_some, ended]
    · simp only [items, first, Option.bind_some, later, if_true, read, Option.map_some]

theorem items_enough {fuel more : Nat} {input : List Char} (enough : input.length < fuel)
    (also : input.length < more) :
    items space admits fuel input = items space admits more input := by
  induction fuel generalizing input more with
  | zero => exact absurd enough (Nat.not_lt_zero _)
  | succ fuel ih =>
    cases more with
    | zero => exact absurd also (Nat.not_lt_zero _)
    | succ more =>
    simp only [items]
    cases read : item space admits (input.dropWhile space) with
    | none => rfl
    | some found =>
      simp only [Option.bind_some]
      cases after : found.2.dropWhile space with
      | nil => rfl
      | cons char rest =>
        have shorter : (char :: rest).length ≤ input.length := by
          rw [← after]
          exact ((List.dropWhile_suffix space).trans
            ((item_suffix read).trans (List.dropWhile_suffix space))).length_le
        rw [List.length_cons] at shorter
        simp only [@ih more rest (by omega) (by omega)]

end Progress

section Body

def bodyElements (body : List Char) : Option (List (Option (List Char))) :=
  if (trim body).isEmpty then some []
  else items isAsciiSpace (fun _ => true) (body.length + 1) body

/-- The elements of an array literal as text, before they are read as plaintext. -/
def arrayTexts (text : List Char) : Option (List (Option (List Char))) :=
  ((braced (trim text)).bind bodyElements).filter fun elements => elements.length ≤ maxArrayElements

theorem decodeTextArray_texts (raw : Bytes) (wire : WireForm) :
    decodeTextArray raw wire = ((decode raw).bind arrayTexts).map fun elements =>
      ⟨elements.map (Option.map fun text => Literals.textPlaintext text wire), 1⟩ := by
  unfold decodeTextArray arrayTexts bodyElements
  cases decode raw with
  | none => rfl
  | some text =>
    simp only [Option.bind_eq_bind, Option.bind_some]
    cases braced (trim text) with
    | none => rfl
    | some body =>
      simp only [Option.bind_some]
      split
      · rfl
      · have enough := Spellings.length_le_encode body
        rw [textElements_encode, @items_enough _ _ _ (body.length + 1) body (by omega) (by omega)]
        cases items isAsciiSpace (fun _ => true) (body.length + 1) body with
        | none => rfl
        | some elements =>
          simp only [Option.bind_some, Option.filter_some]
          by_cases many : maxArrayElements < elements.length
          · rw [if_pos many, if_neg (by simpa using many)]
            rfl
          · rw [if_neg many, if_pos (by simpa using many)]
            rfl

variable {text body : List Char}

theorem braced_iff : braced text = some body ↔ text = '\x7b' :: (body ++ ['\x7d']) := by
  constructor
  · intro found
    unfold braced at found
    split at found
    · rename_i rest
      split at found
      · rename_i closed
        cases found
        have nonempty : rest ≠ [] := by
          rintro rfl
          cases closed
        rw [List.getLast?_eq_getLast_of_ne_nil nonempty] at closed
        rw [← Option.some.inj closed, List.dropLast_append_getLast]
      · cases found
    · cases found
  · rintro rfl
    simp [braced]

/-- A body between the outermost braces, nothing but `space` around them. -/
def Enclosed (space : Char → Bool) (text body : List Char) : Prop :=
  ∃ before after : List Char, (∀ char ∈ before, space char = true) ∧
    (∀ char ∈ after, space char = true) ∧ text = before ++ '\x7b' :: (body ++ '\x7d' :: after)

theorem braced_trim : braced (trim text) = some body ↔ Enclosed isWhitespace text body := by
  rw [braced_iff]
  constructor
  · intro trimmed
    have ends : (text.dropWhile isWhitespace).rdropWhile isWhitespace ++
        (text.dropWhile isWhitespace).rtakeWhile isWhitespace = text.dropWhile isWhitespace :=
      List.rdropWhile_append_rtakeWhile
    have whole : text.takeWhile isWhitespace ++ text.dropWhile isWhitespace = text :=
      List.takeWhile_append_dropWhile
    refine ⟨text.takeWhile isWhitespace, (text.dropWhile isWhitespace).rtakeWhile isWhitespace,
      fun _ => List.mem_takeWhile_imp, fun _ => List.mem_rtakeWhile_imp, ?_⟩
    have middle :
        (text.dropWhile isWhitespace).rdropWhile isWhitespace = '\x7b' :: (body ++ ['\x7d']) :=
      trimmed
    rw [middle, List.cons_append, List.append_assoc, List.singleton_append] at ends
    rw [ends]
    exact whole.symm
  · rintro ⟨before, after, front, back, rfl⟩
    have back' : ∀ char ∈ after.reverse, isWhitespace char = true :=
      fun char listed => back char (List.mem_reverse.mp listed)
    have open' : isWhitespace '\x7b' = false := by decide
    have close : isWhitespace '\x7d' = false := by decide
    rw [trim, List.dropWhile_append_of_pos front,
      List.dropWhile_cons_of_neg (by rw [open']; decide), trimEnd]
    have turned : ('\x7b' :: (body ++ '\x7d' :: after)).reverse =
        after.reverse ++ '\x7d' :: (body.reverse ++ ['\x7b']) := by simp
    rw [turned, List.dropWhile_append_of_pos back',
      List.dropWhile_cons_of_neg (by rw [close]; decide)]
    simp

theorem trim_isEmpty (body : List Char) :
    (trim body).isEmpty = true ↔ ∀ char ∈ body, isWhitespace char = true := by
  have nothing : (trim body).isEmpty = true ↔
      (body.dropWhile isWhitespace).rdropWhile isWhitespace = [] := List.isEmpty_iff
  rw [nothing, List.rdropWhile_eq_nil_iff]
  constructor
  · intro all char inside
    rw [← List.takeWhile_append_dropWhile (p := isWhitespace) (l := body)] at inside
    rcases List.mem_append.mp inside with early | late
    · exact List.mem_takeWhile_imp early
    · exact all char late
  · intro all char inside
    exact all char ((List.dropWhile_sublist _).subset inside)

end Body

end Dbsec.ArrayText
