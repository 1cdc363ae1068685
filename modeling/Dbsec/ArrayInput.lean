import Dbsec.ArrayText

/-! PostgreSQL's array input function over the text that decode_text_array also reads,
proxy/src/encrypt/array.rs. The server's reader is stated on its own, token by token, for
an array of one dimension without a bounds decoration. It knows one space more than the
proxy and wants every bare element non-empty and free of stray quotes; the proxy trims more
than the server does outside the elements. Where a text avoids all of that, the two agree,
and nowhere else. -/
namespace Dbsec.ArrayInput
open Framing Params ArrayParam Text ArrayText

section Server

def isSpace (char : Char) : Bool := isAsciiSpace char || char == '\x0b'

def bareToken : List Char → Option (List (Char × Bool) × List Char)
  | [] => none
  | char :: rest =>
    if char = ',' ∨ char = '\x7d' then some ([], char :: rest)
    else if char = '\\' then
      match rest with
      | [] => none
      | escaped :: rest => (bareToken rest).map fun read => ((escaped, true) :: read.1, read.2)
    else if char = '\x7b' ∨ char = '"' then none
    else (bareToken rest).map fun read => ((char, false) :: read.1, read.2)

/-- One element, its leading space already skipped. A delimiter here is an error: the
server has no empty bare element. -/
def elementToken (input : List Char) : Option (Option (List Char) × List Char) :=
  if input.head? = some '"' then (quotedChars input.tail).map fun read => (some read.1, read.2)
  else (bareToken input).bind fun read =>
    if read.1.isEmpty then none else some (bareValue isSpace read.1, read.2)

def arrayElements : Nat → List Char → Option (List (Option (List Char)) × List Char)
  | 0, _ => none
  | fuel + 1, input =>
    (elementToken (input.dropWhile isSpace)).bind fun read =>
      match read.2.dropWhile isSpace with
      | [] => none
      | mark :: rest =>
        if mark = '\x7d' then some ([read.1], rest)
        else if mark = ',' then
          (arrayElements fuel rest).map fun later => (read.1 :: later.1, later.2)
        else none

/-- What follows the opening brace: at once the closing one, or elements. Only space may
come after it. -/
def arrayBody (rest : List Char) : Option (List (Option (List Char))) :=
  let read := if (rest.dropWhile isSpace).head? = some '\x7d' then
      some ([], (rest.dropWhile isSpace).tail)
    else arrayElements (rest.length + 1) rest
  read.bind fun read => if read.2.all isSpace then some read.1 else none

/-- The elements the server finds in a text. No text the server takes holds a NUL. -/
def arrayIn (text : List Char) : Option (List (Option (List Char))) :=
  if '\x00' ∈ text then none
  else if (text.dropWhile isSpace).head? = some '\x7b' then arrayBody (text.dropWhile isSpace).tail
  else none

end Server

section Tokens

/-- A bare element the server takes: there is one, and no quote stands in it unescaped. -/
def serverAdmits (read : List (Char × Bool)) : Bool :=
  !read.isEmpty && read.all (· != ('"', false))

theorem dropWhile_before {drops : Char → Bool} {mark : Char} (kept : drops mark = false)
    (text after : List Char) :
    (text ++ mark :: after).dropWhile drops = text.dropWhile drops ++ mark :: after := by
  induction text with
  | nil => exact List.dropWhile_cons_of_neg (by rw [kept]; decide)
  | cons char rest ih =>
    rw [List.cons_append, List.dropWhile_cons, List.dropWhile_cons]
    split
    · exact ih
    · rfl

variable {text : List Char} {read : List Char × List Char}

theorem quotedChars_append (found : quotedChars text = some read) (after : List Char) :
    quotedChars (text ++ after) = some (read.1, read.2 ++ after) := by
  fun_induction quotedChars text generalizing read with
  | case1 => cases found
  | case2 => cases found
  | case3 escaped rest ih =>
    obtain ⟨later, there, rfl⟩ := Option.map_eq_some_iff.mp found
    rw [List.cons_append, List.cons_append, quotedChars_escape, ih there]
    rfl
  | case4 rest =>
    cases found
    exact quotedChars_close _
  | case5 char rest plain inside ih =>
    obtain ⟨later, there, rfl⟩ := Option.map_eq_some_iff.mp found
    rw [List.cons_append, quotedChars_char plain inside, ih there]
    rfl

theorem bareToken_append {read : List (Char × Bool) × List Char}
    (found : bareChars text = some read) (clean : read.1.all (· != ('"', false)) = true)
    (after : List Char) :
    bareToken (text ++ '\x7d' :: after) = some (read.1, read.2 ++ '\x7d' :: after) := by
  fun_induction bareChars text generalizing read with
  | case1 =>
    cases found
    rw [List.nil_append, bareToken.eq_def]
    rfl
  | case2 rest =>
    cases found
    rw [List.cons_append, bareToken.eq_def]
    rfl
  | case3 => cases found
  | case4 escaped rest _ ih =>
    obtain ⟨later, there, rfl⟩ := Option.map_eq_some_iff.mp found
    rw [List.all_cons, Bool.and_eq_true] at clean
    rw [List.cons_append, List.cons_append, bareToken.eq_def]
    simp only [ih there clean.2]
    rfl
  | case5 => cases found
  | case6 char rest comma plain brace ih =>
    obtain ⟨later, there, rfl⟩ := Option.map_eq_some_iff.mp found
    rw [List.all_cons, Bool.and_eq_true, bne_iff_ne] at clean
    have quote : char ≠ '"' := by
      rintro rfl
      exact clean.1 rfl
    rw [not_or] at brace
    rw [List.cons_append, bareToken.eq_def]
    simp only [ih there clean.2, if_neg (not_or.mpr ⟨comma, brace.2⟩), if_neg plain,
      if_neg (not_or.mpr ⟨brace.1, quote⟩), Option.map_some]

theorem serverAdmits_iff {read : List (Char × Bool)} :
    serverAdmits read = true ↔ read.isEmpty = false ∧ read.all (· != ('"', false)) = true := by
  rw [serverAdmits, Bool.and_eq_true, Bool.not_eq_true']

variable {input : List Char}

theorem head_append {mark : Char} (nonempty : input ≠ []) (after : List Char) :
    (input ++ after).head? = some mark ↔ input.head? = some mark := by
  rw [List.head?_append_of_ne_nil _ nonempty]

theorem elementToken_append {read : Option (List Char) × List Char}
    (found : item isSpace serverAdmits input = some read) (after : List Char) :
    elementToken (input ++ '\x7d' :: after) = some (read.1, read.2 ++ '\x7d' :: after) := by
  have nonempty : input ≠ [] := by
    rintro rfl
    cases found
  unfold elementToken
  by_cases quoted : input.head? = some '"'
  · rw [item, if_pos quoted] at found
    obtain ⟨inner, there, rfl⟩ := Option.map_eq_some_iff.mp found
    rw [if_pos ((head_append nonempty _).mpr quoted), List.tail_append_of_ne_nil nonempty,
      quotedChars_append there, Option.map_some]
  · rw [item_bare quoted] at found
    obtain ⟨inner, there, admitted⟩ := Option.bind_eq_some_iff.mp found
    split at admitted
    · rename_i admits
      cases admitted
      obtain ⟨some, clean⟩ := serverAdmits_iff.mp admits
      rw [if_neg fun same => quoted ((head_append nonempty _).mp same),
        bareToken_append there clean, Option.bind_some, if_neg (by rw [some]; decide)]
    · cases admitted

variable {elements : List (Option (List Char))}

theorem arrayElements_append {fuel : Nat} {body : List Char}
    (found : items isSpace serverAdmits fuel body = some elements) (after : List Char) :
    arrayElements fuel (body ++ '\x7d' :: after) = some (elements, after) := by
  induction fuel generalizing body elements with
  | zero => cases found
  | succ fuel ih =>
    obtain ⟨element, rest, first, later⟩ := items_succ.mp found
    have closing : isSpace '\x7d' = false := by decide
    rw [arrayElements, dropWhile_before closing, elementToken_append first, Option.bind_some]
    dsimp only
    rw [dropWhile_before closing]
    rcases later with ⟨ended, rfl⟩ | ⟨next, others, comma, listed, rfl⟩
    · rw [ended]
      rfl
    · rw [comma]
      simp only [List.cons_append, ih listed]
      rfl

theorem quotedChars_used (found : quotedChars text = some read) :
    ∃ used, text = used ++ read.2 ∧ ∀ rest, quotedChars (used ++ rest) = some (read.1, rest) := by
  fun_induction quotedChars text generalizing read with
  | case1 => cases found
  | case2 => cases found
  | case3 escaped rest ih =>
    obtain ⟨later, there, rfl⟩ := Option.map_eq_some_iff.mp found
    obtain ⟨used, rfl, again⟩ := ih there
    refine ⟨'\\' :: escaped :: used, rfl, fun rest => ?_⟩
    rw [List.cons_append, List.cons_append, quotedChars_escape, again]
    rfl
  | case4 rest =>
    cases found
    exact ⟨['"'], rfl, fun rest => quotedChars_close rest⟩
  | case5 char rest plain inside ih =>
    obtain ⟨later, there, rfl⟩ := Option.map_eq_some_iff.mp found
    obtain ⟨used, rfl, again⟩ := ih there
    refine ⟨char :: used, rfl, fun rest => ?_⟩
    rw [List.cons_append, quotedChars_char plain inside, again]
    rfl

theorem bareToken_used {read : List (Char × Bool) × List Char}
    (found : bareToken text = some read) :
    read.1.all (· != ('"', false)) = true ∧ read.2.takeWhile isSpace = [] ∧
      ∃ used, text = used ++ read.2 ∧ (used = [] → read.1 = []) ∧
        ∀ rest, Ends rest → bareChars (used ++ rest) = some (read.1, rest) := by
  fun_induction bareToken text generalizing read with
  | case1 => cases found
  | case2 char rest mark =>
    cases found
    have unspaced : ¬ isSpace char = true := by
      rcases mark with rfl | rfl
      · decide
      · decide
    exact ⟨rfl, List.takeWhile_cons_of_neg unspaced, [], rfl, fun _ => rfl, fun _ => bareChars_ends⟩
  | case3 => cases found
  | case4 escaped rest _ ih =>
    obtain ⟨later, there, rfl⟩ := Option.map_eq_some_iff.mp found
    obtain ⟨clean, unspaced, used, rfl, -, again⟩ := ih there
    refine ⟨?_, unspaced, '\\' :: escaped :: used, rfl, nofun, fun rest ends => ?_⟩
    · rw [List.all_cons, clean]
      simp
    · rw [List.cons_append, List.cons_append, bareChars_escape, again rest ends]
      rfl
  | case5 => cases found
  | case6 char rest mark plain quote ih =>
    obtain ⟨later, there, rfl⟩ := Option.map_eq_some_iff.mp found
    obtain ⟨clean, unspaced, used, rfl, -, again⟩ := ih there
    rw [not_or] at mark quote
    refine ⟨?_, unspaced, char :: used, rfl, nofun, fun rest ends => ?_⟩
    · rw [List.all_cons, clean]
      simpa using quote.2
    · rw [List.cons_append, bareChars_char mark.1 plain (not_or.mpr ⟨quote.1, mark.2⟩),
        again rest ends]
      rfl

theorem elementToken_used {read : Option (List Char) × List Char}
    (found : elementToken input = some read) :
    ∃ used, used ≠ [] ∧ input = used ++ read.2 ∧ ∀ rest, Ends rest →
      item isSpace serverAdmits (used ++ (read.2.takeWhile isSpace ++ rest)) =
        some (read.1, read.2.takeWhile isSpace ++ rest) := by
  unfold elementToken at found
  split at found
  · rename_i quoted
    obtain ⟨inner, there, rfl⟩ := Option.map_eq_some_iff.mp found
    obtain ⟨used, tail, again⟩ := quotedChars_used there
    refine ⟨'"' :: used, List.cons_ne_nil _ _, ?_, fun rest _ => ?_⟩
    · rw [List.cons_append, ← tail]
      cases input with
      | nil => cases quoted
      | cons char rest => exact congrArg (· :: rest) (Option.some.inj quoted)
    · rw [List.cons_append, item_quoted, again]
      rfl
  · rename_i bare
    obtain ⟨inner, there, admitted⟩ := Option.bind_eq_some_iff.mp found
    split at admitted
    · cases admitted
    · rename_i nonempty
      cases admitted
      obtain ⟨clean, unspaced, used, rfl, empty, again⟩ := bareToken_used there
      have some : used ≠ [] := by
        rintro rfl
        rw [empty rfl] at nonempty
        exact nonempty rfl
      refine ⟨used, some, rfl, fun rest ends => ?_⟩
      rw [unspaced, List.nil_append, item_bare, again rest ends, Option.bind_some,
        if_pos (serverAdmits_iff.mpr ⟨Bool.eq_false_iff.mpr nonempty, clean⟩)]
      exact fun same => bare ((head_append some _).mpr ((head_append some _).mp same))

theorem arrayElements_used {fuel : Nat} {after : List Char}
    (found : arrayElements fuel input = some (elements, after)) :
    ∃ body, input = body ++ '\x7d' :: after ∧
      items isSpace serverAdmits fuel body = some elements := by
  induction fuel generalizing input elements with
  | zero => cases found
  | succ fuel ih =>
    obtain ⟨⟨element, left⟩, first, found⟩ := Option.bind_eq_some_iff.mp found
    obtain ⟨used, nonempty, spelled, again⟩ := elementToken_used first
    dsimp only at found spelled again
    have lead : ∀ tail : List Char, (used ++ tail).dropWhile isSpace = used ++ tail := by
      intro tail
      have kept := List.head?_dropWhile_not isSpace input
      rw [spelled] at kept
      cases used with
      | nil => exact absurd rfl nonempty
      | cons char rest =>
        exact List.dropWhile_cons_of_neg (by rw [show isSpace char = false from kept]; decide)
    have whole : input = input.takeWhile isSpace ++ (used ++ (left.takeWhile isSpace ++
        left.dropWhile isSpace)) := by
      rw [List.takeWhile_append_dropWhile, ← spelled, List.takeWhile_append_dropWhile]
    -- The body is the input cut where its last element ends.
    have cut : ∀ tail, Ends tail → items isSpace serverAdmits (fuel + 1)
        (input.takeWhile isSpace ++ (used ++ (left.takeWhile isSpace ++ tail))) =
          match tail with
          | [] => some [element]
          | _ :: rest => (items isSpace serverAdmits fuel rest).map (element :: ·) := by
      intro tail ends
      rw [items, List.dropWhile_append_of_pos fun _ => List.mem_takeWhile_imp, lead,
        again tail ends, Option.bind_some]
      dsimp only
      rw [List.dropWhile_append_of_pos fun _ => List.mem_takeWhile_imp, ends.unspaced (by decide)]
      rcases ends with rfl | ⟨rest, rfl⟩
      · rfl
      · rfl
    cases later : left.dropWhile isSpace with
    | nil =>
      rw [later] at found
      cases found
    | cons mark rest =>
      rw [later] at found whole
      dsimp only at found
      split at found
      · rename_i closing
        cases found
        refine ⟨_, ?_, cut [] (.inl rfl)⟩
        rw [← closing, List.append_nil, List.append_assoc, List.append_assoc]
        exact whole
      · split at found
        · rename_i comma
          obtain ⟨⟨others, last⟩, next, same⟩ := Option.map_eq_some_iff.mp found
          cases same
          obtain ⟨body, rfl, read⟩ := ih next
          refine ⟨_, ?_, (cut (',' :: body) (.inr ⟨body, rfl⟩)).trans
            (congrArg (Option.map (element :: ·)) read)⟩
          rw [comma] at whole
          simpa using whole
        · cases found

end Tokens

section Text

def ServerBody (body : List Char) (elements : List (Option (List Char))) : Prop :=
  (∀ char ∈ body, isSpace char = true) ∧ elements = [] ∨
    items isSpace serverAdmits (body.length + 1) body = some elements

variable {text : List Char}

theorem cons_of_head {mark : Char} (first : text.head? = some mark) : text = mark :: text.tail := by
  cases text with
  | nil => cases first
  | cons char rest => exact congrArg (· :: rest) (Option.some.inj first)

variable {elements : List (Option (List Char))}

theorem arrayBody_iff {rest : List Char} :
    arrayBody rest = some elements ↔
      ∃ body after : List Char, (∀ char ∈ after, isSpace char = true) ∧
      rest = body ++ '\x7d' :: after ∧ ServerBody body elements := by
  have closing : isSpace '\x7d' = false := by decide
  constructor
  · intro found
    obtain ⟨⟨others, tail⟩, read, found⟩ := Option.bind_eq_some_iff.mp found
    split at found
    · rename_i blank
      cases found
      have trailing : ∀ char ∈ tail, isSpace char = true := List.all_eq_true.mp blank
      split at read
      · rename_i empty
        cases read
        refine ⟨rest.takeWhile isSpace, _, trailing, ?_,
          .inl ⟨fun _ => List.mem_takeWhile_imp, rfl⟩⟩
        rw [← cons_of_head empty, List.takeWhile_append_dropWhile]
      · obtain ⟨body, rfl, listed⟩ := arrayElements_used read
        refine ⟨body, tail, trailing, rfl, .inr ?_⟩
        rw [← listed]
        apply items_enough (Nat.lt_succ_self _)
        rw [List.length_append]
        omega
    · cases found
  · rintro ⟨body, after, trailing, rfl, read⟩
    have blank : after.all isSpace = true := List.all_eq_true.mpr trailing
    unfold arrayBody
    rw [dropWhile_before closing]
    rcases read with ⟨spaces, rfl⟩ | listed
    · have nothing : body.dropWhile isSpace = [] := List.dropWhile_eq_nil_iff.mpr spaces
      rw [nothing, List.nil_append, List.head?_cons, if_pos rfl]
      exact if_pos blank
    · -- A list of elements does not start with the closing brace.
      have opens : (body.dropWhile isSpace ++ '\x7d' :: after).head? ≠ some '\x7d' := by
        obtain ⟨read, first, -⟩ := Option.bind_eq_some_iff.mp listed
        intro same
        cases input : body.dropWhile isSpace with
        | nil =>
          rw [input] at first
          cases first
        | cons char rest =>
          rw [input] at first same
          cases same
          rw [item_bare (by simp), bareChars.eq_def] at first
          cases first
      have more :
          items isSpace serverAdmits ((body ++ '\x7d' :: after).length + 1) body =
            some elements := by
        rw [← listed]
        apply items_enough _ (Nat.lt_succ_self _)
        rw [List.length_append]
        omega
      rw [if_neg opens, arrayElements_append more]
      exact if_pos blank

theorem arrayIn_iff : arrayIn text = some elements ↔
      '\x00' ∉ text ∧ ∃ body, Enclosed isSpace text body ∧ ServerBody body elements := by
  have opening : isSpace '\x7b' = false := by decide
  constructor
  · intro found
    unfold arrayIn at found
    split at found
    · cases found
    · rename_i clean
      split at found
      · rename_i opens
        obtain ⟨body, after, trailing, spelled, read⟩ := arrayBody_iff.mp found
        refine ⟨clean, body,
          ⟨text.takeWhile isSpace, after, fun _ => List.mem_takeWhile_imp, trailing, ?_⟩, read⟩
        rw [← spelled, ← cons_of_head opens, List.takeWhile_append_dropWhile]
      · cases found
  · rintro ⟨clean, body, ⟨before, after, leading, trailing, rfl⟩, read⟩
    have rest : (before ++ '\x7b' :: (body ++ '\x7d' :: after)).dropWhile isSpace =
        '\x7b' :: (body ++ '\x7d' :: after) := by
      rw [dropWhile_before opening, List.dropWhile_eq_nil_iff.mpr leading, List.nil_append]
    rw [arrayIn, if_neg clean, rest, List.head?_cons, if_pos rfl, List.tail_cons]
    exact arrayBody_iff.mpr ⟨body, after, trailing, rfl, read⟩

end Text

section Spaces

variable {α : Type} {fewer more : α → Bool}

theorem dropWhile_weaker (weaker : ∀ entry, fewer entry = true → more entry = true)
    (entries : List α) :
    (entries.dropWhile fewer).dropWhile more = entries.dropWhile more := by
  induction entries with
  | nil => rfl
  | cons entry rest ih =>
    by_cases dropped : fewer entry = true
    · rw [List.dropWhile_cons_of_pos dropped, List.dropWhile_cons_of_pos (weaker entry dropped), ih]
    · rw [List.dropWhile_cons_of_neg dropped]

theorem rdropWhile_weaker (weaker : ∀ entry, fewer entry = true → more entry = true)
    (entries : List α) :
    (entries.rdropWhile fewer).rdropWhile more = entries.rdropWhile more := by
  rw [List.rdropWhile, List.rdropWhile, List.rdropWhile, List.reverse_reverse,
    dropWhile_weaker weaker]

variable {char : Char}

theorem isSpace_iff : isSpace char = true ↔ isAsciiSpace char = true ∨ char = '\x0b' := by
  rw [isSpace, Bool.or_eq_true, beq_iff_eq]

theorem isSpace_of_ascii (space : isAsciiSpace char = true) : isSpace char = true :=
  isSpace_iff.mpr (.inl space)

theorem isAsciiSpace_iff :
    isAsciiSpace char = true ↔ char = ' ' ∨ char = '\t' ∨ char = '\n' ∨ char = '\x0c' ∨
      char = '\r' := by
  simp only [isAsciiSpace, Bool.or_eq_true, beq_iff_eq, or_assoc]

theorem isWhitespace_of_isSpace (space : isSpace char = true) : isWhitespace char = true := by
  rcases isSpace_iff.mp space with ascii | rfl
  · rcases isAsciiSpace_iff.mp ascii with rfl | rfl | rfl | rfl | rfl <;> decide
  · decide

theorem isSpace_marks (space : isSpace char = true) :
    char ≠ ',' ∧ char ≠ '\\' ∧ char ≠ '"' ∧ ¬ (char = '\x7b' ∨ char = '\x7d') := by
  rcases isSpace_iff.mp space with ascii | rfl
  · rcases isAsciiSpace_iff.mp ascii with rfl | rfl | rfl | rfl | rfl <;> decide
  · decide

theorem trimBare_weaker (read : List (Char × Bool)) :
    trimBare isSpace (trimBare isAsciiSpace read) = trimBare isSpace read := by
  apply rdropWhile_weaker
  intro entry dropped
  rw [Bool.and_eq_true] at dropped ⊢
  exact ⟨dropped.1, isSpace_of_ascii dropped.2⟩

theorem count_trimBare (kept : isAsciiSpace char = false) (read : List (Char × Bool)) :
    ((trimBare isAsciiSpace read).map Prod.fst).count char = (read.map Prod.fst).count char := by
  induction read using List.reverseRecOn with
  | nil => rfl
  | append_singleton init entry ih =>
    rw [trimBare_concat]
    split
    · rename_i dropped
      have other : entry.1 ≠ char := by
        rintro rfl
        rw [kept, Bool.and_false] at dropped
        cases dropped
      rw [ih, List.map_append, List.count_append, List.map_singleton, List.count_singleton]
      simp [other]
    · rfl

end Spaces

section Agreement

/-- A bare element both read alike: the server takes it, and no vertical tab stands
unescaped at either end of it. -/
def plainAdmits (read : List (Char × Bool)) : Bool :=
  serverAdmits read && read.head? != some ('\x0b', false) &&
    (trimBare isAsciiSpace read).getLast? != some ('\x0b', false)

variable {read : List (Char × Bool)}

theorem plainAdmits_iff :
    plainAdmits read = true ↔ serverAdmits read = true ∧ read.head? ≠ some ('\x0b', false) ∧
      (trimBare isAsciiSpace read).getLast? ≠ some ('\x0b', false) := by
  rw [plainAdmits, Bool.and_eq_true, Bool.and_eq_true, bne_iff_ne, bne_iff_ne, and_assoc]

theorem trimBare_same : trimBare isSpace read = trimBare isAsciiSpace read ↔
      (trimBare isAsciiSpace read).getLast? ≠ some ('\x0b', false) := by
  rw [← trimBare_weaker]
  have unescaped : trimBare isSpace (trimBare isAsciiSpace read) = trimBare isAsciiSpace read ↔
      ∀ nonempty : trimBare isAsciiSpace read ≠ [],
        ¬ (!((trimBare isAsciiSpace read).getLast nonempty).2 &&
          isSpace ((trimBare isAsciiSpace read).getLast nonempty).1) = true :=
    List.rdropWhile_eq_self_iff
  have last : ∀ nonempty : trimBare isAsciiSpace read ≠ [],
      ¬ (!((trimBare isAsciiSpace read).getLast nonempty).2 &&
        isAsciiSpace ((trimBare isAsciiSpace read).getLast nonempty).1) = true :=
    fun nonempty => List.rdropWhile_last_not _ _ nonempty
  rw [unescaped]
  constructor
  · intro kept ends
    have nonempty : trimBare isAsciiSpace read ≠ [] := by
      intro empty
      rw [empty] at ends
      cases ends
    rw [List.getLast?_eq_getLast_of_ne_nil nonempty] at ends
    apply kept nonempty
    rw [Option.some.inj ends]
    rfl
  · intro ends nonempty dropped
    rw [List.getLast?_eq_getLast_of_ne_nil nonempty] at ends
    rw [Bool.and_eq_true, Bool.not_eq_true'] at dropped
    rcases isSpace_iff.mp dropped.2 with ascii | tab
    · apply last nonempty
      rw [dropped.1, ascii]
      rfl
    · exact ends (congrArg some (Prod.ext tab dropped.1))

theorem bareValue_same (same : trimBare isSpace read = trimBare isAsciiSpace read) :
    bareValue isSpace read = bareValue isAsciiSpace read := by
  rw [bareValue, bareValue, same]

variable {body : List Char} {elements : List (Option (List Char))}

theorem items_admitted {space : Char → Bool} {fewer more : List (Char × Bool) → Bool}
    (weaker : ∀ read, fewer read = true → more read = true) {fuel : Nat}
    (found : items space fewer fuel body = some elements) :
    items space more fuel body = some elements := by
  induction fuel generalizing body elements with
  | zero => cases found
  | succ fuel ih =>
    obtain ⟨element, rest, first, later⟩ := items_succ.mp found
    have again : item space more (body.dropWhile space) = some (element, rest) := by
      by_cases quoted : (body.dropWhile space).head? = some '"'
      · rw [item, if_pos quoted] at first ⊢
        exact first
      · rw [item_bare quoted] at first ⊢
        obtain ⟨inner, there, admitted⟩ := Option.bind_eq_some_iff.mp first
        split at admitted
        · rename_i admits
          rw [there, Option.bind_some, if_pos (weaker _ admits)]
          exact admitted
        · cases admitted
    refine items_succ.mpr ⟨element, rest, again, ?_⟩
    rcases later with ended | ⟨next, others, comma, listed, rfl⟩
    · exact .inl ended
    · exact .inr ⟨next, others, comma, ih listed, rfl⟩

theorem plain_item {input : List Char} {read : Option (List Char) × List Char}
    (skipped : input.dropWhile isAsciiSpace = input)
    (found : item isAsciiSpace plainAdmits input = some read) :
    input.dropWhile isSpace = input ∧ item isSpace serverAdmits input = some read := by
  by_cases quoted : input.head? = some '"'
  · rw [cons_of_head quoted] at found ⊢
    rw [item_quoted] at found ⊢
    exact ⟨List.dropWhile_cons_of_neg (by decide), found⟩
  · rw [item_bare quoted] at found ⊢
    obtain ⟨inner, there, admitted⟩ := Option.bind_eq_some_iff.mp found
    split at admitted
    · rename_i admits
      obtain ⟨server, lead, last⟩ := plainAdmits_iff.mp admits
      rw [there, Option.bind_some, if_pos server, bareValue_same (trimBare_same.mpr last)]
      refine ⟨?_, admitted⟩
      cases input with
      | nil => rfl
      | cons char rest =>
        apply List.dropWhile_cons_of_neg
        intro space
        rcases isSpace_iff.mp space with ascii | rfl
        · rw [List.dropWhile_cons_of_pos ascii] at skipped
          have shorter := (List.dropWhile_sublist isAsciiSpace (l := rest)).length_le
          rw [skipped, List.length_cons] at shorter
          omega
        · rw [bareChars_char (by decide) (by decide) (by decide)] at there
          obtain ⟨later, -, rfl⟩ := Option.map_eq_some_iff.mp there
          exact lead rfl
    · cases admitted

theorem dropWhile_isSpace (text : List Char) :
    (text.dropWhile isAsciiSpace).dropWhile isSpace = text.dropWhile isSpace :=
  dropWhile_weaker (fun _ => isSpace_of_ascii) text

theorem dropWhile_idem (text : List Char) :
    (text.dropWhile isAsciiSpace).dropWhile isAsciiSpace = text.dropWhile isAsciiSpace :=
  dropWhile_weaker (fun _ => id) text

theorem plain_server {fuel : Nat}
    (found : items isAsciiSpace plainAdmits fuel body = some elements) :
    items isSpace serverAdmits fuel body = some elements := by
  induction fuel generalizing body elements with
  | zero => cases found
  | succ fuel ih =>
    obtain ⟨element, rest, first, later⟩ := items_succ.mp found
    obtain ⟨skipped, again⟩ := plain_item (dropWhile_idem body) first
    rw [dropWhile_isSpace] at skipped
    refine items_succ.mpr ⟨element, rest, by rw [skipped, again], ?_⟩
    rw [← dropWhile_isSpace]
    rcases later with ⟨ended, rfl⟩ | ⟨next, others, comma, listed, rfl⟩
    · exact .inl ⟨by rw [ended]; rfl, rfl⟩
    · exact .inr ⟨next, others, by rw [comma]; rfl, ih listed, rfl⟩

end Agreement

section Difference

variable {spaces : List Char}

theorem bareChars_spaces (blank : ∀ char ∈ spaces, isSpace char = true) (text : List Char) :
    bareChars (spaces ++ text) =
      (bareChars text).map fun read => (spaces.map (·, false) ++ read.1, read.2) := by
  induction spaces with
  | nil => exact Option.map_id'.symm
  | cons char rest ih =>
    obtain ⟨comma, plain, -, brace⟩ := isSpace_marks (blank char List.mem_cons_self)
    rw [List.cons_append, bareChars_char comma plain brace,
      ih fun char inside => blank char (List.mem_cons_of_mem _ inside), Option.map_map]
    rfl

variable {text : List Char}

theorem bare_and_quoted {bare : List (Char × Bool) × List Char} {quoted : List Char × List Char}
    (asBare : bareChars text = some bare) (asQuoted : quotedChars text = some quoted) :
    (∃ more, quoted.1 = bare.1.map Prod.fst ++ ',' :: more) ∨
      ∃ more, bare.1.map Prod.fst = quoted.1 ++ '"' :: more := by
  fun_induction quotedChars text generalizing bare quoted with
  | case1 => cases asQuoted
  | case2 => cases asQuoted
  | case3 escaped rest ih =>
    obtain ⟨quoted, inQuoted, rfl⟩ := Option.map_eq_some_iff.mp asQuoted
    rw [bareChars_escape] at asBare
    obtain ⟨bare, inBare, rfl⟩ := Option.map_eq_some_iff.mp asBare
    rcases ih inBare inQuoted with ⟨more, longer⟩ | ⟨more, longer⟩
    · exact .inl ⟨more, congrArg (escaped :: ·) longer⟩
    · exact .inr ⟨more, congrArg (escaped :: ·) longer⟩
  | case4 rest =>
    cases asQuoted
    rw [bareChars_char (by decide) (by decide) (by decide)] at asBare
    obtain ⟨bare, asBare, rfl⟩ := Option.map_eq_some_iff.mp asBare
    exact .inr ⟨_, rfl⟩
  | case5 char rest plain inside ih =>
    obtain ⟨quoted, inQuoted, rfl⟩ := Option.map_eq_some_iff.mp asQuoted
    by_cases comma : char = ','
    · rw [comma, bareChars_comma] at asBare
      cases asBare
      exact .inl ⟨quoted.1, congrArg (· :: quoted.1) comma⟩
    · by_cases brace : char = '\x7b' ∨ char = '\x7d'
      · rw [bareChars.eq_def] at asBare
        simp only [if_neg comma, if_neg plain, if_pos brace] at asBare
        cases asBare
      · rw [bareChars_char comma plain brace] at asBare
        obtain ⟨bare, inBare, rfl⟩ := Option.map_eq_some_iff.mp asBare
        rcases ih inBare inQuoted with ⟨more, longer⟩ | ⟨more, longer⟩
        · exact .inl ⟨more, congrArg (char :: ·) longer⟩
        · exact .inr ⟨more, congrArg (char :: ·) longer⟩

variable {read : List (Char × Bool)}

theorem bareValue_text {space : Char → Bool} (value : bareValue space read = some text) :
    text = (trimBare space read).map Prod.fst := by
  unfold bareValue at value
  dsimp only at value
  split at value
  · cases value
  · exact (Option.some.inj value).symm

theorem bareValue_tab (inside : '\x0b' ∈ read.map Prod.fst) :
    bareValue isAsciiSpace read = some ((trimBare isAsciiSpace read).map Prod.fst) := by
  have kept : '\x0b' ∈ (trimBare isAsciiSpace read).map Prod.fst := by
    rw [← List.count_pos_iff, count_trimBare (by decide), List.count_pos_iff]
    exact inside
  unfold bareValue
  apply if_neg
  rw [Bool.and_eq_true]
  rintro ⟨-, same⟩
  have lower : asciiLower '\x0b' ∈ "null".toList.map asciiLower := by
    rw [← beq_iff_eq.mp same]
    exact List.mem_map_of_mem kept
  exact absurd lower (by decide)

variable {input rest after : List Char} {element : Option (List Char)}

theorem tab_differs (blank : ∀ char ∈ spaces, isSpace char = true) (tab : '\x0b' ∈ spaces)
    (here : item isAsciiSpace (fun _ => true) (spaces ++ input) = some (element, rest)) :
    item isSpace serverAdmits input ≠ some (element, after) := by
  intro there
  have bare : (spaces ++ input).head? ≠ some '"' := by
    cases spaces with
    | nil => cases tab
    | cons char others =>
      intro same
      exact (isSpace_marks (blank char List.mem_cons_self)).2.2.1 (Option.some.inj same)
  rw [item_bare bare, bareChars_spaces blank] at here
  obtain ⟨read, found, value⟩ := Option.bind_eq_some_iff.mp here
  obtain ⟨inner, asBare, rfl⟩ := Option.map_eq_some_iff.mp found
  have tabbed : '\x0b' ∈ (spaces.map (·, false) ++ inner.1).map Prod.fst := by
    rw [List.map_append, List.map_map]
    exact List.mem_append_left _ (by simpa [Function.comp_def] using tab)
  rw [if_pos rfl, bareValue_tab tabbed] at value
  obtain ⟨rfl, -⟩ := Prod.mk.inj (Option.some.inj value)
  -- Each way the server may read the rest gets the number of some character wrong.
  have counted : ∀ char, isAsciiSpace char = false →
      ((trimBare isAsciiSpace (spaces.map (·, false) ++ inner.1)).map Prod.fst).count char =
        spaces.count char + (inner.1.map Prod.fst).count char := by
    intro char kept
    rw [count_trimBare kept, List.map_append, List.count_append, List.map_map]
    simp [Function.comp_def]
  have without : ∀ char, isSpace char = false → spaces.count char = 0 := by
    intro char other
    apply List.count_eq_zero_of_not_mem
    intro inside
    rw [blank char inside] at other
    cases other
  by_cases quoted : input.head? = some '"'
  · rw [cons_of_head quoted, bareChars_char (by decide) (by decide) (by decide)] at asBare
    rw [cons_of_head quoted, item_quoted] at there
    obtain ⟨bare, inBare, rfl⟩ := Option.map_eq_some_iff.mp asBare
    obtain ⟨read, asQuoted, same⟩ := Option.map_eq_some_iff.mp there
    obtain ⟨text, -⟩ := Prod.mk.inj same
    rw [← Option.some.inj text] at counted
    rcases bare_and_quoted inBare asQuoted with ⟨more, longer⟩ | ⟨more, longer⟩
    · have commas := counted ',' (by decide)
      rw [without ',' (by decide), longer, List.map_cons, List.count_append, List.count_cons_self,
        List.count_cons_of_ne (by decide)] at commas
      omega
    · have quotes := counted '"' (by decide)
      rw [without '"' (by decide), List.map_cons, longer, List.count_cons_self, List.count_append,
        List.count_cons_self] at quotes
      omega
  · rw [item_bare quoted, asBare, Option.bind_some] at there
    split at there
    · have same := bareValue_text (Prod.mk.inj (Option.some.inj there)).1
      have tabs := counted '\x0b' (by decide)
      have shorter : (trimBare isSpace inner.1).Sublist inner.1 :=
        (List.rdropWhile_prefix _ _).sublist
      have fewer := (shorter.map Prod.fst).count_le '\x0b'
      have present := List.count_pos_iff.mpr tab
      rw [same] at tabs
      omega
    · cases there

theorem bareChars_head {read : List (Char × Bool) × List Char} {char : Char}
    (found : bareChars input = some read) (first : read.1.head? = some (char, false)) :
    input.head? = some char := by
  fun_cases bareChars input with
  | case1 =>
    cases found
    cases first
  | case2 rest =>
    rw [bareChars_comma] at found
    cases found
    cases first
  | case3 => cases found
  | case4 escaped rest =>
    rw [bareChars_escape] at found
    obtain ⟨later, -, rfl⟩ := Option.map_eq_some_iff.mp found
    cases first
  | case5 other rest comma plain brace =>
    rw [bareChars.eq_def] at found
    simp only [if_neg comma, if_neg plain, if_pos brace] at found
    cases found
  | case6 other rest comma plain brace =>
    rw [bareChars_char comma plain brace] at found
    obtain ⟨later, -, rfl⟩ := Option.map_eq_some_iff.mp found
    cases first
    rfl

theorem trimBare_of_value (same : bareValue isSpace read = bareValue isAsciiSpace read) :
    (trimBare isAsciiSpace read).getLast? ≠ some ('\x0b', false) := by
  intro ends
  have kept : ('\x0b', false) ∈ trimBare isAsciiSpace read := List.mem_of_getLast? ends
  have inside : '\x0b' ∈ read.map Prod.fst :=
    List.mem_map.mpr ⟨_, (List.rdropWhile_prefix _ _).subset kept, rfl⟩
  rw [bareValue_tab inside] at same
  have lengths := congrArg List.length (bareValue_text same)
  rw [List.length_map, List.length_map, ← trimBare_weaker] at lengths
  have trimmed : trimBare isSpace (trimBare isAsciiSpace read) <+: trimBare isAsciiSpace read :=
    List.rdropWhile_prefix _ _
  have equal := trimmed.eq_of_length lengths.symm
  rw [trimBare_weaker] at equal
  exact trimBare_same.mp equal ends

theorem shared_item (skipped : input.dropWhile isAsciiSpace = input)
    (here : item isAsciiSpace (fun _ => true) input = some (element, rest))
    (there : item isSpace serverAdmits (input.dropWhile isSpace) = some (element, after)) :
    after = rest ∧ item isAsciiSpace plainAdmits input = some (element, rest) := by
  by_cases quoted : input.head? = some '"'
  · have unspaced : input.dropWhile isSpace = input := by
      rw [cons_of_head quoted]
      exact List.dropWhile_cons_of_neg (by decide)
    rw [unspaced] at there
    rw [cons_of_head quoted, item_quoted] at here there ⊢
    rw [here] at there
    exact ⟨(Prod.mk.inj (Option.some.inj there)).2.symm, here⟩
  · by_cases unspaced : input.dropWhile isSpace = input
    · rw [unspaced, item_bare quoted] at there
      rw [item_bare quoted] at here ⊢
      obtain ⟨read, found, value⟩ := Option.bind_eq_some_iff.mp here
      rw [found, Option.bind_some] at there ⊢
      split at there
      · rename_i admits
        obtain ⟨taken, rfl⟩ := Prod.mk.inj (Option.some.inj value)
        obtain ⟨same, rfl⟩ := Prod.mk.inj (Option.some.inj there)
        refine ⟨rfl, ?_⟩
        have lead : read.1.head? ≠ some ('\x0b', false) := by
          intro first
          rw [cons_of_head (bareChars_head found first),
            List.dropWhile_cons_of_pos (by decide)] at unspaced
          have shorter := (List.dropWhile_sublist isSpace (l := input.tail)).length_le
          rw [unspaced, List.length_cons] at shorter
          omega
        rw [if_pos
          (plainAdmits_iff.mpr ⟨admits, lead, trimBare_of_value (same.trans taken.symm)⟩), taken]
      · cases there
    · exfalso
      have tab : '\x0b' ∈ input.takeWhile isSpace := by
        cases input with
        | nil => exact absurd rfl unspaced
        | cons char others =>
          by_cases space : isSpace char = true
          · rcases isSpace_iff.mp space with ascii | rfl
            · rw [List.dropWhile_cons_of_pos ascii] at skipped
              have shorter := (List.dropWhile_sublist isAsciiSpace (l := others)).length_le
              rw [skipped, List.length_cons] at shorter
              omega
            · rw [List.takeWhile_cons_of_pos (by decide)]
              exact List.mem_cons_self
          · exact absurd (List.dropWhile_cons_of_neg space) unspaced
      rw [← List.takeWhile_append_dropWhile (p := isSpace) (l := input)] at here
      exact tab_differs (fun _ => List.mem_takeWhile_imp) tab here there

theorem shared_plain {fuel : Nat} {body : List Char} {elements : List (Option (List Char))}
    (here : items isAsciiSpace (fun _ => true) fuel body = some elements)
    (there : items isSpace serverAdmits fuel body = some elements) :
    items isAsciiSpace plainAdmits fuel body = some elements := by
  induction fuel generalizing body elements with
  | zero => cases here
  | succ fuel ih =>
    obtain ⟨element, rest, first, later⟩ := items_succ.mp here
    obtain ⟨other, after, second, follows⟩ := items_succ.mp there
    have same : other = element := by
      rcases later with ⟨-, rfl⟩ | ⟨_, _, -, -, rfl⟩
      · rcases follows with ⟨-, same⟩ | ⟨_, _, -, -, same⟩
        · exact (List.cons.inj same).1.symm
        · exact (List.cons.inj same).1.symm
      · rcases follows with ⟨-, same⟩ | ⟨_, _, -, -, same⟩
        · exact (List.cons.inj same).1.symm
        · exact (List.cons.inj same).1.symm
    rw [same] at second follows
    rw [← dropWhile_isSpace] at second
    obtain ⟨rfl, plain⟩ := shared_item (dropWhile_idem body) first second
    refine items_succ.mpr ⟨element, after, plain, ?_⟩
    rw [← dropWhile_isSpace] at follows
    rcases later with ended | ⟨next, others, comma, listed, rfl⟩
    · exact .inl ended
    · rw [comma, List.dropWhile_cons_of_neg (by decide)] at follows
      rcases follows with ⟨ended, -⟩ | ⟨last, more, again, server, equal⟩
      · cases ended
      · cases again
        rw [← (List.cons.inj equal).2] at server
        exact .inr ⟨next, others, comma, ih listed server, rfl⟩

end Difference

/-- Between its braces a text is blank to the server, or it is not blank even to the
proxy and its bare elements are plain. -/
def PlainBody (body : List Char) : Prop :=
  (∀ char ∈ body, isSpace char = true) ∨ (¬ ∀ char ∈ body, isWhitespace char = true) ∧
    (items isAsciiSpace plainAdmits (body.length + 1) body).isSome = true

/-- A text without NUL, only ASCII space around its braces and a plain body between them. -/
def PlainArray (text : List Char) : Prop :=
  '\x00' ∉ text ∧ ∃ body, Enclosed isSpace text body ∧ PlainBody body

variable {body : List Char} {text : List Char}

theorem Enclosed.braced (enclosed : Enclosed isSpace text body) :
    braced (trim text) = some body := by
  obtain ⟨before, after, leading, trailing, spelled⟩ := enclosed
  exact braced_trim.mpr
    ⟨before, after, fun char inside => isWhitespace_of_isSpace (leading char inside),
    fun char inside => isWhitespace_of_isSpace (trailing char inside), spelled⟩

variable {elements : List (Option (List Char))}

theorem arrayTexts_iff : arrayTexts text = some elements ↔ ∃ body, braced (trim text) = some body ∧
      bodyElements body = some elements ∧ elements.length ≤ maxArrayElements := by
  rw [arrayTexts, Option.filter_eq_some_iff, Option.bind_eq_some_iff, decide_eq_true_eq]
  constructor
  · rintro ⟨⟨body, inside, read⟩, few⟩
    exact ⟨body, inside, read, few⟩
  · rintro ⟨body, inside, read, few⟩
    exact ⟨⟨body, inside, read⟩, few⟩

theorem items_nonempty {space : Char → Bool} {admits : List (Char × Bool) → Bool} {fuel : Nat}
    (found : items space admits fuel body = some []) : False := by
  cases fuel with
  | zero => cases found
  | succ fuel =>
    obtain ⟨_, _, _, ⟨_, none⟩ | ⟨_, _, _, _, none⟩⟩ := items_succ.mp found
    · cases none
    · cases none

theorem bodyElements_blank (blank : ∀ char ∈ body, isWhitespace char = true) :
    bodyElements body = some [] := if_pos ((trim_isEmpty body).mpr blank)

theorem bodyElements_listed (listed : ¬ ∀ char ∈ body, isWhitespace char = true) :
    bodyElements body = items isAsciiSpace (fun _ => true) (body.length + 1) body :=
  if_neg fun empty => listed ((trim_isEmpty body).mp empty)

theorem PlainBody.read (plain : PlainBody body) :
    ∃ elements, bodyElements body = some elements ∧ ServerBody body elements ∧
      ∀ others, ServerBody body others → others = elements := by
  rcases plain with blank | ⟨printed, plain⟩
  · refine ⟨[], bodyElements_blank fun char inside => isWhitespace_of_isSpace (blank char inside),
      .inl ⟨blank, rfl⟩, ?_⟩
    rintro others (⟨-, rfl⟩ | listed)
    · rfl
    · obtain ⟨_, _, first, -⟩ := items_succ.mp listed
      rw [List.dropWhile_eq_nil_iff.mpr blank] at first
      cases first
  · obtain ⟨elements, found⟩ := Option.isSome_iff_exists.mp plain
    refine ⟨elements, ?_, .inr (plain_server found), ?_⟩
    · rw [bodyElements_listed printed]
      exact items_admitted (fun _ _ => rfl) found
    · rintro others (⟨blank, -⟩ | listed)
      · exact absurd (fun char inside => isWhitespace_of_isSpace (blank char inside)) printed
      · rw [plain_server found] at listed
        exact (Option.some.inj listed).symm

theorem plainBody_of_both (here : bodyElements body = some elements)
    (there : ServerBody body elements) : PlainBody body := by
  rcases there with ⟨blank, rfl⟩ | listed
  · exact .inl blank
  · right
    have printed : ¬ ∀ char ∈ body, isWhitespace char = true := by
      intro blank
      rw [bodyElements_blank blank] at here
      cases here
      exact items_nonempty listed
    rw [bodyElements_listed printed] at here
    exact ⟨printed, Option.isSome_iff_exists.mpr ⟨elements, shared_plain here listed⟩⟩

theorem arrayTexts_server (here : arrayTexts text = some elements) :
    arrayIn text = some elements ↔ PlainArray text := by
  obtain ⟨body, inside, read, few⟩ := arrayTexts_iff.mp here
  constructor
  · intro there
    obtain ⟨clean, other, enclosed, server⟩ := arrayIn_iff.mp there
    rw [Enclosed.braced enclosed] at inside
    cases inside
    exact ⟨clean, body, enclosed, plainBody_of_both read server⟩
  · rintro ⟨clean, other, enclosed, plain⟩
    rw [Enclosed.braced enclosed] at inside
    cases inside
    obtain ⟨found, again, server, -⟩ := plain.read
    rw [read] at again
    cases again
    exact arrayIn_iff.mpr ⟨clean, body, enclosed, server⟩

theorem server_arrayTexts (there : arrayIn text = some elements)
    (few : elements.length ≤ maxArrayElements) :
    arrayTexts text = some elements ↔ PlainArray text := by
  constructor
  · intro here
    exact (arrayTexts_server here).mp there
  · rintro ⟨-, body, enclosed, plain⟩
    obtain ⟨-, other, again, server⟩ := arrayIn_iff.mp there
    have same : other = body :=
      Option.some.inj ((Enclosed.braced again).symm.trans (Enclosed.braced enclosed))
    rw [same] at server
    obtain ⟨found, read, -, only⟩ := plain.read
    rw [only elements server] at few ⊢
    exact arrayTexts_iff.mpr ⟨body, Enclosed.braced enclosed, read, few⟩

/-- The texts of the elements a parameter holds: what decode_text_array finds before it
reads each as plaintext. -/
def decodedTexts (raw : Bytes) : Option (List (Option (List Char))) := (decode raw).bind arrayTexts

def serverTexts (raw : Bytes) : Option (List (Option (List Char))) := (decode raw).bind arrayIn

def PlainParameter (raw : Bytes) : Prop := ∃ text, decode raw = some text ∧ PlainArray text

/-- Two decoders, one answer on the plain arrays only: an array read here is the server's
array exactly when it is plain, and so is an array of the server's, within the cap, exactly
when it is read here. -/
theorem decodeTextArray_server_iff (raw : Bytes) :
    (∀ wire, decodeTextArray raw wire = (decodedTexts raw).map fun elements =>
        ⟨elements.map (Option.map fun text => Literals.textPlaintext text wire), 1⟩) ∧
      (∀ elements, decodedTexts raw = some elements →
        (serverTexts raw = some elements ↔ PlainParameter raw)) ∧
      ∀ elements, serverTexts raw = some elements → elements.length ≤ maxArrayElements →
        (decodedTexts raw = some elements ↔ PlainParameter raw) := by
  have named : ∀ {text : List Char}, decode raw = some text →
      (PlainArray text ↔ PlainParameter raw) := by
    intro text spelled
    constructor
    · intro plain
      exact ⟨text, spelled, plain⟩
    · rintro ⟨other, again, plain⟩
      rw [spelled] at again
      cases again
      exact plain
  refine ⟨fun wire => decodeTextArray_texts raw wire, ?_, ?_⟩
  · intro elements here
    obtain ⟨text, spelled, read⟩ := Option.bind_eq_some_iff.mp here
    rw [serverTexts, spelled, Option.bind_some, arrayTexts_server read]
    exact named spelled
  · intro elements there few
    obtain ⟨text, spelled, read⟩ := Option.bind_eq_some_iff.mp there
    rw [decodedTexts, spelled, Option.bind_some, server_arrayTexts read few]
    exact named spelled

/-- Empty bare elements, stray quotes and a NUL are read here and refused by the server;
a vertical tab and a no-break space give the two different elements. -/
theorem server_disagrees :
    (decodedTexts (encode "\x7ba,,b\x7d".toList) =
        some [some ['a'], some [], some ['b']] ∧
          serverTexts (encode "\x7ba,,b\x7d".toList) = none) ∧
      (decodedTexts (encode "\x7ba\"b\x7d".toList) = some [some ['a', '"', 'b']] ∧
        serverTexts (encode "\x7ba\"b\x7d".toList) = none) ∧
      (decodedTexts (encode "\x7ba\x00\x7d".toList) = some [some ['a', '\x00']] ∧
        serverTexts (encode "\x7ba\x00\x7d".toList) = none) ∧
      (decodedTexts (encode "\x7b\x0ba\x7d".toList) = some [some ['\x0b', 'a']] ∧
        serverTexts (encode "\x7b\x0ba\x7d".toList) = some [some ['a']]) ∧
      (decodedTexts (encode "\x7b\u00a0\x7d".toList) = some [] ∧
        serverTexts (encode "\x7b\u00a0\x7d".toList) = some [some ['\u00a0']]) := by
  decide +kernel

end Dbsec.ArrayInput
