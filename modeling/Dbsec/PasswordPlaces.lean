import Dbsec.Redaction
import Dbsec.Spellings

/-! Where a connection string of tokio_postgres gives its password, and which of these
places the mask of proxy/src/config.rs hides whatever stands there. A string is either
pairs of keys and values or a URL; a place is such a string with the text of its password
left open. -/
namespace Dbsec.PasswordPlaces
open Framing Text Redaction

section Grammar

def Blank (text : List Char) : Prop := ∀ char ∈ text, isWhitespace char = true

/-- Text in which a backslash takes the next character as it is, up to a character that stops. -/
inductive Spelled (stops : Char → Bool) : List Char → Prop
  | nil : Spelled stops []
  | plain {char : Char} {rest : List Char} (free : char ≠ '\\') (inside : stops char = false)
      (more : Spelled stops rest) : Spelled stops (char :: rest)
  | escape {char : Char} {rest : List Char} (more : Spelled stops rest) :
      Spelled stops ('\\' :: char :: rest)

inductive Value where
  | bare (text : List Char)
  | quoted (text : List Char)

def Value.text : Value → List Char
  | .bare text => text
  | .quoted text => '\'' :: (text ++ ['\''])

def Value.Valid : Value → Prop
  | .bare text => text ≠ [] ∧ text.head? ≠ some '\'' ∧ Spelled isWhitespace text
  | .quoted text => Spelled (· == '\'') text

structure Pair where
  key : List Char
  left : List Char
  right : List Char
  value : Value
  named : key ≠ [] ∧ ∀ char ∈ key, isWhitespace char = false ∧ char ≠ '='
  blankLeft : Blank left
  blankRight : Blank right
  valid : value.Valid

def Pair.text (pair : Pair) : List Char :=
  pair.key ++ (pair.left ++ '=' :: (pair.right ++ pair.value.text))

structure Separator where
  text : List Char
  some : text ≠ []
  blank : Blank text

def schemes : List (List Char) := ["postgres".toList, "postgresql".toList]

/-- A string of pairs around the value of its password. -/
structure Pairs where
  lead : List Char
  earlier : List (Pair × Separator)
  left : List Char
  right : List Char
  later : List (Separator × Pair)
  trail : List Char
  blankLead : Blank lead
  blankLeft : Blank left
  blankRight : Blank right
  blankTrail : Blank trail

def Pairs.before (pairs : Pairs) : List Char :=
  pairs.lead ++ (pairs.earlier.flatMap fun (pair, separator) => pair.text ++ separator.text) ++
    "password".toList ++ pairs.left ++ '=' :: pairs.right

def Pairs.after (pairs : Pairs) : List Char :=
  (pairs.later.flatMap fun (separator, pair) => separator.text ++ pair.text) ++ pairs.trail

/-- A URL around the password of its credentials; what follows them is free. -/
structure Credentials where
  scheme : List Char
  user : List Char
  behind : List Char
  known : scheme ∈ schemes
  plain : ':' ∉ user ∧ '@' ∉ user

def hexPair (high low : Char) : Option UInt8 := do
  return UInt8.ofNat (16 * (← hexValue high) + (← hexValue low))

def percentDecode : List Char → Bytes
  | '%' :: high :: low :: rest =>
    match hexPair high low with
    | some byte => byte :: percentDecode rest
    | none => encode ['%'] ++ percentDecode (high :: low :: rest)
  | char :: rest => encode [char] ++ percentDecode rest
  | [] => []

/-- A URL around the value of a query parameter that is the password. -/
structure Query where
  scheme : List Char
  credentials : Option (List Char)
  host : List Char
  path : List Char
  earlier : List (List Char × List Char)
  key : List Char
  later : Option (List Char)
  known : scheme ∈ schemes
  hosts : ∀ char ∈ host, char ≠ '/' ∧ char ≠ '?'
  database : path = [] ∨ ∃ name, path = '/' :: name ∧ '?' ∉ name
  pairs : ∀ pair ∈ earlier, '=' ∉ pair.1 ∧ '&' ∉ pair.2
  named : '=' ∉ key ∧ percentDecode key = encode "password".toList
  separate : ∀ text, credentials = some text → '@' ∉ text
  alone : credentials = none → ∀ char ∈ host ++ path ++ key ++ later.getD [] ++
    earlier.flatMap (fun pair => pair.1 ++ pair.2), char ≠ '@'

def Query.before (query : Query) : List Char :=
  (query.credentials.map (· ++ ['@'])).getD [] ++ query.host ++ query.path ++ '?' ::
    (query.earlier.flatMap fun pair => pair.1 ++ '=' :: (pair.2 ++ ['&'])) ++ query.key ++ ['=']

def Pairs.Keyed (pairs : Pairs) : Prop :=
  ∀ scheme ∈ schemes, (scheme ++ schemeMark).isPrefixOf pairs.before = false

instance (pairs : Pairs) : Decidable pairs.Keyed :=
  inferInstanceAs
    (Decidable (∀ scheme ∈ schemes, (scheme ++ schemeMark).isPrefixOf pairs.before = false))

inductive Place where
  | bare (pairs : Pairs) (keyed : pairs.Keyed)
  | quoted (pairs : Pairs) (keyed : pairs.Keyed)
  | credentials (url : Credentials)
  | query (url : Query)

def Place.before : Place → List Char
  | .bare pairs _ => pairs.before
  | .quoted pairs _ => pairs.before ++ ['\'']
  | .credentials url => url.scheme ++ schemeMark ++ (url.user ++ [':'])
  | .query url => url.scheme ++ schemeMark ++ url.before

def Place.after : Place → List Char
  | .bare pairs _ => pairs.after
  | .quoted pairs _ => '\'' :: pairs.after
  | .credentials url => '@' :: url.behind
  | .query url => (url.later.map ('&' :: ·)).getD []

def Place.Valid : Place → List Char → Prop
  | .bare .., text => (Value.bare text).Valid
  | .quoted .., text => (Value.quoted text).Valid
  | .credentials _, text => '@' ∉ text
  | .query url, text =>
    '&' ∉ text ∧ (url.credentials = none → '@' ∉ text) ∧
      ((Text.decode (percentDecode text)).isSome = true)

def Place.fill (place : Place) (text : List Char) : List Char :=
  place.before ++ (text ++ place.after)

end Grammar

section Splitting

theorem marked_append {text : List Char} (long : 3 ≤ text.length) (more : List Char) :
    schemeMark.isPrefixOf (text ++ more) = schemeMark.isPrefixOf text := by
  rw [Bool.eq_iff_iff, List.isPrefixOf_iff_prefix, List.isPrefixOf_iff_prefix]
  constructor
  · intro marked
    exact List.prefix_of_prefix_length_le marked (List.prefix_append text more) long
  · intro marked
    exact marked.trans (List.prefix_append text more)

variable {text scheme rest : List Char}

theorem splitScheme_parts (found : splitScheme text = some (scheme, rest)) :
    text = scheme ++ (schemeMark ++ rest) := by
  induction text generalizing scheme with
  | nil => cases found
  | cons first tail ih =>
    rw [splitScheme] at found
    by_cases marked : schemeMark.isPrefixOf (first :: tail) = true
    · rw [if_pos marked] at found
      cases found
      obtain ⟨behind, cut⟩ := List.isPrefixOf_iff_prefix.mp marked
      have same : tail.drop 2 = behind := by
        have dropped := congrArg (List.drop 3) cut
        exact dropped.symm
      rw [same, List.nil_append, cut]
    · rw [if_neg marked] at found
      obtain ⟨⟨scheme', rest'⟩, later, same⟩ := Option.map_eq_some_iff.mp found
      cases same
      rw [List.cons_append, ← ih later]

variable {before : List Char}

theorem splitScheme_append (found : splitScheme before = some (scheme, rest)) (more : List Char) :
    splitScheme (before ++ more) = some (scheme, rest ++ more) := by
  induction before generalizing scheme with
  | nil => cases found
  | cons first tail ih =>
    have long : 3 ≤ (first :: tail).length := by
      have length := congrArg List.length (splitScheme_parts found)
      rw [length, List.length_append, List.length_append]
      exact Nat.le_trans (Nat.le_add_right 3 _) (Nat.le_add_left _ _)
    have marks := marked_append long more
    rw [List.cons_append] at marks
    rw [splitScheme] at found
    rw [List.cons_append, splitScheme, marks]
    by_cases marked : schemeMark.isPrefixOf (first :: tail) = true
    · rw [if_pos marked] at found ⊢
      cases found
      rw [List.length_cons] at long
      rw [List.drop_append_of_le_length (by omega)]
    · rw [if_neg marked] at found ⊢
      obtain ⟨⟨scheme', rest'⟩, later, same⟩ := Option.map_eq_some_iff.mp found
      cases same
      rw [ih later]
      rfl

theorem splitScheme_later (absent : splitScheme before = none)
    (whole : before.getLast? ≠ some ':' ∧ before.getLast? ≠ some '/') (more : List Char) :
    splitScheme (before ++ more) =
      (splitScheme more).map fun (scheme, rest) => (before ++ scheme, rest) := by
  induction before with
  | nil => cases found : splitScheme more <;> simp [found]
  | cons first tail ih =>
    rw [splitScheme] at absent
    have unmarked : ¬ schemeMark.isPrefixOf (first :: tail) = true := by
      intro marked
      rw [if_pos marked] at absent
      cases absent
    rw [if_neg unmarked, Option.map_eq_none_iff] at absent
    -- a mark that reached into what follows would leave a colon or a slash at the end
    have still : ¬ schemeMark.isPrefixOf (first :: (tail ++ more)) = true := by
      match tail, unmarked, whole with
      | [], _, whole =>
        intro marked
        obtain ⟨behind, cut⟩ := List.isPrefixOf_iff_prefix.mp marked
        have head : first = ':' := (List.cons.inj cut).1.symm
        exact whole.1 (by rw [head]; rfl)
      | [second], _, whole =>
        intro marked
        obtain ⟨behind, cut⟩ := List.isPrefixOf_iff_prefix.mp marked
        have next : second = '/' := (List.cons.inj (List.cons.inj cut).2).1.symm
        exact whole.2 (by rw [next]; rfl)
      | second :: third :: tail, unmarked, _ =>
        have marks := @marked_append (first :: second :: third :: tail) (by simp) more
        intro marked
        exact unmarked (marks ▸ marked)
    rw [List.cons_append, splitScheme, if_neg still]
    have behind : (tail.getLast? ≠ some ':' ∧ tail.getLast? ≠ some '/') := by
      cases tail with
      | nil => simp
      | cons second tail => exact whole
    rw [ih absent behind, Option.map_map]
    rfl

theorem splitScheme_free (free : ':' ∉ text) : splitScheme text = none := by
  cases found : splitScheme text with
  | none => rfl
  | some parts =>
    obtain ⟨scheme, rest⟩ := parts
    refine absurd ?_ free
    rw [splitScheme_parts found]
    exact List.mem_append_right _ (List.mem_append_left _ (by decide))

theorem splitScheme_first (free : ':' ∉ scheme) (rest : List Char) :
    splitScheme (scheme ++ schemeMark ++ rest) = some (scheme, rest) := by
  induction scheme with
  | nil => rfl
  | cons first tail ih =>
    rw [List.mem_cons, not_or] at free
    have unmarked : ¬ schemeMark.isPrefixOf (first :: (tail ++ schemeMark ++ rest)) = true := by
      intro marked
      obtain ⟨behind, cut⟩ := List.isPrefixOf_iff_prefix.mp marked
      exact free.1 (List.cons.inj cut).1
    rw [List.cons_append, List.cons_append, splitScheme, if_neg unmarked, ih free.2]
    rfl

end Splitting

section Authority

variable {text : List Char}

theorem rfindAt_none (free : '@' ∉ text) : rfindAt text = none := by
  induction text with
  | nil => rfl
  | cons first rest ih =>
    rw [List.mem_cons, not_or] at free
    rw [rfindAt, ih free.2]
    exact if_neg (Ne.symm free.1)

variable {right : List Char}

theorem rfindAt_append {left : List Char} (free : '@' ∉ right) :
    rfindAt (left ++ right) = rfindAt left := by
  induction left with
  | nil => exact rfindAt_none free
  | cons first rest ih => rw [List.cons_append, rfindAt, ih, rfindAt]

theorem rfindAt_last (left : List Char) (free : '@' ∉ right) :
    rfindAt (left ++ '@' :: right) = some left.length := by
  induction left with
  | nil =>
    rw [List.nil_append, rfindAt, rfindAt_none free]
    rfl
  | cons first rest ih =>
    rw [List.cons_append, rfindAt, ih]
    rfl

theorem rfindAt_lt {place : Nat} (found : rfindAt text = some place) : place < text.length := by
  induction text generalizing place with
  | nil => cases found
  | cons first rest ih =>
    rw [rfindAt] at found
    cases later : rfindAt rest with
    | some place' =>
      rw [later] at found
      cases found
      have inside := ih later
      rw [List.length_cons]
      omega
    | none =>
      simp only [later] at found
      split at found
      · cases found
        exact Nat.succ_pos _
      · cases found

/-- Where the parameters begin in the text behind a scheme, and what is written before them. -/
def opened (rest : List Char) : Nat := (rfindAt (authority rest)).getD 0

def shownUser (rest : List Char) : List Char :=
  match rfindAt (authority rest) with
  | none => []
  | some place => maskUserinfo (rest.take place)

variable {dsn scheme rest : List Char}

theorem redactDsn_split (found : splitScheme dsn = some (scheme, rest)) :
    redactDsn dsn = scheme ++ schemeMark ++
      (shownUser rest ++ maskPasswordParameters (rest.drop (opened rest))) := by
  simp only [redactDsn, found, shownUser, opened]
  cases rfindAt (authority rest) with
  | none => rfl
  | some place => rfl


theorem opened_lt (some : rest ≠ []) : opened rest < rest.length := by
  unfold opened
  cases found : rfindAt (authority rest) with
  | none => exact List.length_pos_iff.mpr some
  | some place =>
    have shorter := (List.takeWhile_sublist (fun char => !endsAuthority char) (l := rest)).length_le
    exact Nat.lt_of_lt_of_le (rfindAt_lt found) shorter

theorem opened_le (rest : List Char) : opened rest ≤ rest.length := by
  cases rest with
  | nil => exact Nat.le_refl 0
  | cons char more => exact (opened_lt (List.cons_ne_nil char more)).le

/-- Whatever follows a text in which the authority has ended, or brings no `@` into it, is
left to the mask. -/
def Settled (front more : List Char) : Prop :=
  (∃ char ∈ front, endsAuthority char = true) ∨ '@' ∉ authority more

variable {front more : List Char}

theorem rfindAt_settled (settled : Settled front more) :
    rfindAt (authority (front ++ more)) = rfindAt (authority front) := by
  by_cases ended : ∃ char ∈ front, endsAuthority char = true
  · rw [authority, authority, List.takeWhile_append]
    split
    · rename_i all
      obtain ⟨char, inside, ends⟩ := ended
      have none : ∀ char ∈ front, (!endsAuthority char) = true := List.takeWhile_eq_self_iff.mp
        (List.Sublist.eq_of_length (List.takeWhile_sublist _) all)
      have not := none char inside
      rw [ends] at not
      cases not
    · rfl
  · rcases settled with other | free
    · exact absurd other ended
    · have none : ∀ char ∈ front, (!endsAuthority char) = true := by
        intro char inside
        rw [Bool.not_eq_true']
        exact Bool.eq_false_iff.mpr fun ends => ended ⟨char, inside, ends⟩
      have whole : authority front = front := List.takeWhile_eq_self_iff.mpr none
      have joined : authority (front ++ more) = front ++ authority more :=
        List.takeWhile_append_of_pos none
      rw [joined, rfindAt_append free, whole]

theorem redactDsn_settled (found : splitScheme dsn = some (scheme, front ++ more))
    (settled : Settled front more) :
    redactDsn dsn = scheme ++ schemeMark ++ (shownUser front ++
      masker.output .outside (front.drop (opened front) ++ more)) := by
  have same := rfindAt_settled settled
  have begins : opened (front ++ more) = opened front := by rw [opened, same, opened]
  have inside := opened_le front
  have written : shownUser (front ++ more) = shownUser front := by
    unfold shownUser
    rw [same]
    cases place : rfindAt (authority front) with
    | none => rfl
    | some place' =>
      have early : place' ≤ front.length := by
        rw [opened, place] at inside
        exact inside
      simp only [List.take_append_of_le_length early]
  rw [redactDsn_split found, begins, written, mask_output, List.drop_append_of_le_length inside]

end Authority

section Leaks

/-- Two texts the mask passes on in different ways from a mode, to go on alike. -/
def Tells (mode : Mode) (left right : List Char) : Prop :=
  masker.mode mode left = masker.mode mode right ∧
    masker.output mode left ≠ masker.output mode right

instance (mode : Mode) (left right : List Char) : Decidable (Tells mode left right) :=
  inferInstanceAs (Decidable (_ ∧ _))

theorem told_apart {scheme front left right after dsn dsn' : List Char}
    (found : splitScheme dsn = some (scheme, front ++ (left ++ after)))
    (found' : splitScheme dsn' = some (scheme, front ++ (right ++ after)))
    (settled : Settled front (left ++ after)) (settled' : Settled front (right ++ after))
    (tells : Tells (masker.mode .outside (front.drop (opened front))) left right) :
    redactDsn dsn ≠ redactDsn dsn' := by
  rw [redactDsn_settled found settled, redactDsn_settled found' settled']
  intro equal
  have outputs := List.append_cancel_left (List.append_cancel_left equal)
  exact masker.output_apart after tells.1 tells.2 outputs

/-- A text that brings the mask out of whatever it reads and then shows a letter. -/
def rawLeak (letter : Char) : List Char := ['/', '\'', '\'', ' ', letter, ' ']

def escapedLeak (letter : Char) : List Char := ['/', '\'', '\'', '\\', ' ', letter, '\\', ' ']

def blankLeak (letter : Char) : List Char := [' ', letter, ' ']

theorem rawLeak_tells (mode : Mode) : Tells mode (rawLeak 'x') (rawLeak 'y') := by
  cases mode with
  | key read =>
    have outside : Tells .outside (rawLeak 'x') (rawLeak 'y') := by decide
    exact outside
  | _ =>
    rename_i masked
    cases masked <;> decide

theorem escapedLeak_tells (mode : Mode) : Tells mode (escapedLeak 'x') (escapedLeak 'y') := by
  cases mode with
  | key read =>
    have outside : Tells .outside (escapedLeak 'x') (escapedLeak 'y') := by decide
    exact outside
  | _ =>
    rename_i masked
    cases masked <;> decide

theorem blankLeak_tells {mode : Mode} (open' : mode ≠ .quoted true)
    (whole : ∀ masked, mode ≠ .escaped masked) :
    Tells mode (blankLeak 'x') (blankLeak 'y') := by
  cases mode with
  | key read =>
    have outside : Tells .outside (blankLeak 'x') (blankLeak 'y') := by decide
    exact outside
  | start masked => cases masked <;> decide
  | bare masked => cases masked <;> decide
  | quoted masked =>
    cases masked with
    | true => exact absurd rfl open'
    | false => decide
  | escaped masked => exact absurd rfl (whole masked)

end Leaks

section Tokens

/-- Whole parameters and words with what ends them, as the mask takes a text apart. -/
inductive Tokens : List Char → Prop
  | nil : Tokens []
  | word {key rest : List Char} {char : Char} (keyed : ∀ char ∈ key, isKeyChar char = true)
      (ends : isDelimiter char = true) (more : Tokens rest) : Tokens (key ++ char :: rest)
  | bare {key value rest : List Char} {char : Char} (keyed : ∀ char ∈ key, isKeyChar char = true)
      (unquoted : value.head? ≠ some '\'') (open' : ∀ char ∈ value, endsValue char = false)
      (ends : endsValue char = true) (more : Tokens rest) :
      Tokens (key ++ '=' :: (value ++ char :: rest))
  | quoted {key body rest : List Char} (keyed : ∀ char ∈ key, isKeyChar char = true)
      (body' : Spelled (· == '\'') body) (more : Tokens rest) :
      Tokens (key ++ '=' :: '\'' :: (body ++ '\'' :: rest))

/-- The text ends inside the quotes of a parameter whose key is `password`. -/
def Inside (text : List Char) : Prop :=
  ∃ done key body, Tokens done ∧ (∀ char ∈ key, isKeyChar char = true) ∧ isPassword key = true ∧
    Spelled (· == '\'') body ∧ text = done ++ (key ++ '=' :: '\'' :: body)

theorem mode_key {key : List Char} (keyed : ∀ char ∈ key, isKeyChar char = true)
    (read : List Char) :
    masker.mode (.key read) key = .key (read ++ key) := by
  induction key generalizing read with
  | nil => rw [List.append_nil]; rfl
  | cons first rest ih =>
    have here := keyed first List.mem_cons_self
    simp only [isKeyChar, Bool.and_eq_true, bne_iff_ne, ne_eq, Bool.not_eq_true'] at here
    have step : masker.next (.key read) first = .key (read ++ [first]) := by
      simp only [masker, here.1, here.2, Bool.false_eq_true, if_false]
    have later :=
      ih (fun char inside => keyed char (List.mem_cons_of_mem _ inside)) (read ++ [first])
    rw [List.append_assoc] at later
    change masker.mode (masker.next (.key read) first) rest = _
    rw [step, later]
    rfl

variable {body : List Char}

theorem mode_spelled (spelled : Spelled (· == '\'') body) (masked : Bool) :
    masker.mode (.quoted masked) body = .quoted masked := by
  induction spelled with
  | nil => rfl
  | @plain char rest free inside _ ih =>
    have other : char ≠ '\'' := by simpa using inside
    change masker.mode (masker.next (.quoted masked) char) rest = _
    rw [show masker.next (.quoted masked) char =
      .quoted masked by simp only [masker, if_neg free, if_neg other]]
    exact ih
  | escape _ ih => exact ih

theorem output_spelled (spelled : Spelled (· == '\'') body) :
    masker.output (.quoted true) body = [] := by
  induction spelled with
  | nil => rfl
  | @plain char rest free inside _ ih =>
    have other : char ≠ '\'' := by simpa using inside
    have stays : masker.next (.quoted true) char = .quoted true := by
      simp only [masker, if_neg free, if_neg other]
    rw [Transducer.output, stays, ih]
    rfl
  | escape _ ih => exact ih

variable {value : List Char}

theorem mode_unended (open' : ∀ char ∈ value, endsValue char = false) (masked : Bool) :
    masker.mode (.bare masked) value = .bare masked := by
  induction value with
  | nil => rfl
  | cons first rest ih =>
    have here := open' first List.mem_cons_self
    change masker.mode (masker.next (.bare masked) first) rest = _
    rw [show masker.next (.bare masked) first = .bare masked by simp [masker, here]]
    exact ih fun char inside => open' char (List.mem_cons_of_mem _ inside)

theorem mode_value {char : Char} (unquoted : value.head? ≠ some '\'')
    (open' : ∀ char ∈ value, endsValue char = false) (ends : endsValue char = true) (masked : Bool)
    (rest : List Char) :
    masker.mode (.start masked) (value ++ char :: rest) = masker.mode .outside rest := by
  cases value with
  | nil =>
    have other : char ≠ '\'' := by
      rintro rfl
      cases ends
    change masker.mode (masker.next (.start masked) char) rest = _
    rw [show masker.next (.start masked) char =
      .outside by simp only [masker, if_neg other, if_pos ends]]
  | cons first tail =>
    have other : first ≠ '\'' := fun same => unquoted (by rw [same]; rfl)
    have here := open' first List.mem_cons_self
    have begun : masker.next (.start masked) first = .bare masked := by simp [masker, other, here]
    have ended : masker.next (.bare masked) char = .outside := by simp only [masker, if_pos ends]
    change masker.mode (masker.next (.start masked) first) (tail ++ char :: rest) = _
    rw [begun, masker.mode_append,
      mode_unended fun char inside => open' char (List.mem_cons_of_mem _ inside)]
    change masker.mode (masker.next (.bare masked) char) rest = _
    rw [ended]

variable {text : List Char}

theorem mode_tokens (tokens : Tokens text) : masker.mode .outside text = .outside := by
  induction tokens with
  | nil => rfl
  | @word key rest char keyed ends _ ih =>
    rw [masker.mode_append, Mode.outside, mode_key keyed]
    change masker.mode (masker.next (.key _) char) rest = _
    rw [show masker.next (.key ([] ++ key)) char = .outside by simp only [masker, ends, if_true]]
    exact ih
  | @bare key value rest char keyed unquoted open' ends _ ih =>
    rw [masker.mode_append, Mode.outside, mode_key keyed]
    change masker.mode (.start (isPassword ([] ++ key))) (value ++ char :: rest) = _
    rw [mode_value unquoted open' ends]
    exact ih
  | @quoted key body rest keyed body' _ ih =>
    rw [masker.mode_append, Mode.outside, mode_key keyed]
    change masker.mode (.quoted (isPassword ([] ++ key))) (body ++ '\'' :: rest) = _
    rw [masker.mode_append, mode_spelled body']
    exact ih

theorem quoted_parts (text : List Char) :
    (∃ body rest, Spelled (· == '\'') body ∧ text = body ++ '\'' :: rest) ∨
      Spelled (· == '\'') text ∨
      ∃ body, Spelled (· == '\'') body ∧ text = body ++ ['\\'] := by
  fun_induction quotedSpan text with
  | case1 char rest ih =>
    rcases ih with ⟨body, more, spelled, same⟩ | spelled | ⟨body, spelled, same⟩
    · exact .inl ⟨_, more, @Spelled.escape _ char _ spelled, by rw [same]; rfl⟩
    · exact .inr (.inl spelled.escape)
    · exact .inr (.inr ⟨_, @Spelled.escape _ char _ spelled, by rw [same]; rfl⟩)
  | case2 rest => exact .inl ⟨[], rest, .nil, rfl⟩
  | case3 char rest plain quote ih =>
    have other : (char == '\'') = false := by simpa using quote
    by_cases escapes : char = '\\'
    · cases rest with
      | nil => exact .inr (.inr ⟨[], .nil, by rw [escapes]; rfl⟩)
      | cons next rest => exact (plain next rest escapes rfl).elim
    · rcases ih with ⟨body, more, spelled, same⟩ | spelled | ⟨body, spelled, same⟩
      · exact .inl ⟨char :: body, more, .plain escapes other spelled, by rw [same]; rfl⟩
      · exact .inr (.inl (.plain escapes other spelled))
      · exact .inr (.inr ⟨char :: body, .plain escapes other spelled, by rw [same]; rfl⟩)
  | case4 => exact .inr (.inl .nil)

theorem bare_parts (unquoted : text.head? ≠ some '\'') :
    (∀ masked, masker.mode (.start masked) text = .start masked ∨
        masker.mode (.start masked) text = .bare masked) ∨
      ∃ value ending rest, value.head? ≠ some '\'' ∧ (∀ char ∈ value, endsValue char = false) ∧
        endsValue ending = true ∧ text = value ++ ending :: rest := by
  have parts :
      text.takeWhile (fun char => !endsValue char) ++ text.dropWhile (fun char => !endsValue char) =
      text := List.takeWhile_append_dropWhile
  have open' : ∀ char ∈ text.takeWhile (fun char => !endsValue char), endsValue char = false := by
    intro char inside
    simpa using List.mem_takeWhile_imp inside
  have stopped := List.head?_dropWhile_not (fun char => !endsValue char) text
  generalize text.takeWhile (fun char => !endsValue char) = value at parts open'
  generalize text.dropWhile (fun char => !endsValue char) = behind at parts stopped
  subst parts
  cases behind with
  | nil =>
    refine .inl fun masked => ?_
    rw [List.append_nil] at unquoted ⊢
    cases value with
    | nil => exact .inl rfl
    | cons first tail =>
      have other : first ≠ '\'' := fun same => unquoted (by rw [same]; rfl)
      have here := open' first List.mem_cons_self
      have begun : masker.next (.start masked) first = .bare masked := by simp [masker, other, here]
      refine .inr ?_
      change masker.mode (masker.next (.start masked) first) tail = _
      rw [begun, mode_unended fun char inside => open' char (List.mem_cons_of_mem _ inside)]
  | cons ending rest =>
    have ends : endsValue ending = true := by simpa using stopped
    refine .inr ⟨value, ending, rest, ?_, open', ends, rfl⟩
    cases value with
    | nil => simp
    | cons first tail => exact unquoted

theorem Inside.prepend {done : List Char}
    (tokens : ∀ {rest : List Char}, Tokens rest → Tokens (done ++ rest)) (inside : Inside text) :
    Inside (done ++ text) := by
  obtain ⟨earlier, key, body, held, keyed, password, spelled, rfl⟩ := inside
  exact ⟨done ++ earlier, key, body, tokens held, keyed, password,
    spelled, by rw [List.append_assoc]⟩

theorem inside_of_mode (size : Nat) (text : List Char) (small : text.length ≤ size)
    (reached : masker.mode .outside text = .quoted true) : Inside text := by
  -- by the length of what is left, one parameter or word at a time
  induction size generalizing text with
  | zero =>
    obtain rfl := List.length_eq_zero_iff.mp (Nat.le_zero.mp small)
    cases reached
  | succ size ih =>
    have parts : text.takeWhile isKeyChar ++ text.dropWhile isKeyChar = text :=
      List.takeWhile_append_dropWhile
    have keyed : ∀ char ∈ text.takeWhile isKeyChar, isKeyChar char = true :=
      fun _ => List.mem_takeWhile_imp
    have stopped := List.head?_dropWhile_not isKeyChar text
    generalize text.takeWhile isKeyChar = key at parts keyed
    generalize text.dropWhile isKeyChar = behind at parts stopped
    subst parts
    rw [masker.mode_append, Mode.outside, mode_key keyed, List.nil_append] at reached
    cases behind with
    | nil => cases reached
    | cons next more =>
      rw [List.length_append, List.length_cons] at small
      by_cases equals : next = '='
      · subst equals
        change masker.mode (.start (isPassword key)) more = _ at reached
        by_cases opens : more.head? = some '\''
        · obtain ⟨quoted, rfl⟩ : ∃ quoted, more = '\'' :: quoted := by
            cases more with
            | nil => cases opens
            | cons first quoted => exact ⟨quoted, by rw [Option.some.inj opens]⟩
          rw [List.length_cons] at small
          change masker.mode (.quoted (isPassword key)) quoted = _ at reached
          rcases quoted_parts quoted
            with ⟨body, rest, spelled, rfl⟩ | spelled | ⟨body, spelled, rfl⟩
          · rw [masker.mode_append, mode_spelled spelled] at reached
            rw [List.length_append, List.length_cons] at small
            have within : rest.length ≤ size := by omega
            have later := ih rest within reached
            have whole : key ++ '=' :: '\'' :: (body ++ '\'' :: rest) =
                (key ++ '=' :: '\'' :: (body ++ ['\''])) ++ rest := by simp
            rw [whole]
            refine later.prepend fun tokens => ?_
            have token := Tokens.quoted keyed spelled tokens
            simpa using token
          · rw [mode_spelled spelled] at reached
            have password : isPassword key = true := by simpa using reached
            exact ⟨[], key, quoted, .nil, keyed, password, spelled, rfl⟩
          · rw [masker.mode_append, mode_spelled spelled] at reached
            cases reached
        · rcases bare_parts opens with unended | ⟨value, ending, rest, unquoted, open', ends, rfl⟩
          · rcases unended (isPassword key) with still | still
            · rw [still] at reached
              cases reached
            · rw [still] at reached
              cases reached
          · rw [mode_value unquoted open' ends] at reached
            rw [List.length_append, List.length_cons] at small
            have within : rest.length ≤ size := by omega
            have later := ih rest within reached
            have whole : key ++ '=' :: (value ++ ending :: rest) =
                (key ++ '=' :: (value ++ [ending])) ++ rest := by simp
            rw [whole]
            refine later.prepend fun tokens => ?_
            have token := Tokens.bare keyed unquoted open' ends tokens
            simpa using token
      · have delimiter : isDelimiter next = true := by
          simpa [isKeyChar, equals] using stopped
        have ended : masker.next (.key key) next = .outside := by
          simp only [masker, delimiter, if_true]
        change masker.mode (masker.next (.key key) next) more = _ at reached
        rw [ended] at reached
        have later := ih more (by omega) reached
        have whole : key ++ next :: more = (key ++ [next]) ++ more := by simp
        rw [whole]
        refine later.prepend fun tokens => ?_
        have token := Tokens.word keyed delimiter tokens
        simpa using token

theorem inside_iff (text : List Char) : masker.mode .outside text = .quoted true ↔ Inside text := by
  constructor
  · exact inside_of_mode text.length text (Nat.le_refl _)
  · rintro ⟨done, key, body, tokens, keyed, password, spelled, rfl⟩
    rw [masker.mode_append, mode_tokens tokens, Mode.outside, masker.mode_append, mode_key keyed,
      List.nil_append]
    change masker.mode (.quoted (isPassword key)) body = _
    rw [password, mode_spelled spelled]

end Tokens

section Places

def Leaks (place : Place) : Prop :=
  ∃ left right, place.Valid left ∧ place.Valid right ∧
    redactDsn (place.fill left) ≠ redactDsn (place.fill right)

variable {scheme : List Char}

theorem scheme_free (known : scheme ∈ schemes) : ':' ∉ scheme := by
  simp only [schemes, List.mem_cons, List.not_mem_nil, or_false] at known
  rcases known with rfl | rfl
  · decide
  · decide

theorem leaks_credentials (url : Credentials) : Leaks (.credentials url) := by
  have validX : '@' ∉ rawLeak 'x' := by decide
  have validY : '@' ∉ rawLeak 'y' := by decide
  refine ⟨rawLeak 'x', rawLeak 'y', validX, validY, ?_⟩
  have split (text : List Char) : splitScheme (Place.fill (.credentials url) text) =
      some (url.scheme, (url.user ++ [':']) ++ (text ++ Place.after (.credentials url))) := by
    have found := splitScheme_first (scheme_free url.known)
      ((url.user ++ [':']) ++ (text ++ Place.after (.credentials url)))
    rwa [← List.append_assoc] at found
  refine told_apart (split _) (split _) (.inr ?_) (.inr ?_) (rawLeak_tells _)
  · exact List.not_mem_nil
  · exact List.not_mem_nil

theorem leaks_query (url : Query) : Leaks (.query url) := by
  refine ⟨rawLeak 'x', rawLeak 'y', ⟨by decide, fun _ => by decide, by decide +kernel⟩,
    ⟨by decide, fun _ => by decide, by decide +kernel⟩, ?_⟩
  have split (text : List Char) : splitScheme (Place.fill (.query url) text) =
      some (url.scheme, url.before ++ (text ++ Place.after (.query url))) := by
    have found :=
      splitScheme_first (scheme_free url.known) (url.before ++ (text ++ Place.after (.query url)))
    rwa [← List.append_assoc] at found
  have ended : ∃ char ∈ url.before, endsAuthority char = true :=
    ⟨'?', by simp [Query.before], rfl⟩
  exact told_apart (split _) (split _) (.inl ended) (.inl ended) (rawLeak_tells _)

theorem before_last (pairs : Pairs) :
    pairs.before.getLast? ≠ some ':' ∧ pairs.before.getLast? ≠ some '/' := by
  have last : ∀ char, pairs.before.getLast? = some char → char = '=' ∨
      isWhitespace char = true := by
    intro char ends
    rw [Pairs.before, List.getLast?_append, List.getLast?_cons] at ends
    cases blank : pairs.right.getLast? with
    | none =>
      simp only [blank] at ends
      cases ends
      exact .inl rfl
    | some ending =>
      simp only [blank] at ends
      cases ends
      exact .inr (pairs.blankRight _ (List.mem_of_getLast? blank))
  constructor
  · intro ends
    rcases last _ ends with equals | blank
    · cases equals
    · cases blank
  · intro ends
    rcases last _ ends with equals | blank
    · cases equals
    · cases blank

theorem shown_in_scheme {before left right rest dsn dsn' : List Char}
    (found : splitScheme dsn = some (before ++ (left ++ scheme), rest))
    (found' : splitScheme dsn' = some (before ++ (right ++ scheme), rest)) (apart : left ≠ right) :
    redactDsn dsn ≠ redactDsn dsn' := by
  rw [redactDsn_split found, redactDsn_split found']
  intro equal
  simp only [List.append_assoc] at equal
  exact apart (List.append_cancel_right (List.append_cancel_left equal))

theorem escapedLeak_valid {letter : Char} (plain : letter ≠ '\\' ∧ isWhitespace letter = false) :
    (Value.bare (escapedLeak letter)).Valid := by
  refine ⟨List.cons_ne_nil _ _, by simp [escapedLeak], ?_⟩
  refine .plain (by decide) (by decide)
    (.plain (by decide) (by decide) (.plain (by decide) (by decide) ?_))
  exact .escape (.plain plain.1 plain.2 (.escape .nil))

theorem leaks_bare (pairs : Pairs) (keyed : pairs.Keyed) : Leaks (.bare pairs keyed) := by
  refine ⟨escapedLeak 'x', escapedLeak 'y', escapedLeak_valid (by decide),
    escapedLeak_valid (by decide), ?_⟩
  change redactDsn (pairs.before ++ (escapedLeak 'x' ++ pairs.after)) ≠
    redactDsn (pairs.before ++ (escapedLeak 'y' ++ pairs.after))
  cases found : splitScheme pairs.before with
  | some parts =>
    obtain ⟨scheme, front⟩ := parts
    exact told_apart (splitScheme_append found _) (splitScheme_append found _)
      (.inr List.not_mem_nil)
      (.inr List.not_mem_nil) (escapedLeak_tells _)
  | none =>
    have later (letter : Char) (free : ':' ∉ escapedLeak letter) :
        splitScheme (pairs.before ++ (escapedLeak letter ++ pairs.after)) =
          (splitScheme pairs.after).map fun (scheme, rest) =>
            (pairs.before ++ (escapedLeak letter ++ scheme), rest) := by
      have ends : (escapedLeak letter).getLast? = some ' ' := rfl
      rw [splitScheme_later found (before_last pairs), splitScheme_later (splitScheme_free free)
        (by rw [ends]; decide), Option.map_map]
      rfl
    have foundX := later 'x' (by decide)
    have foundY := later 'y' (by decide)
    cases behind : splitScheme pairs.after with
    | some parts =>
      rw [behind] at foundX foundY
      exact shown_in_scheme foundX foundY (by decide)
    | none =>
      rw [behind] at foundX foundY
      simp only [redactDsn, foundX, foundY, Option.map_none, mask_output]
      obtain ⟨same, apart⟩ := escapedLeak_tells (masker.mode .outside pairs.before)
      exact masker.output_apart pairs.after same apart

def quotedLeak (letter : Char) : List Char := letter :: schemeMark

def userLeak (letter : Char) : List Char := ['@', ' ', letter, ' ', '/']

variable {text : List Char}

theorem spelled_of_all {stops : Char → Bool}
    (all : (text.all fun char => char != '\\' && !stops char) = true) : Spelled stops text := by
  induction text with
  | nil => exact .nil
  | cons first rest ih =>
    rw [List.all_cons, Bool.and_eq_true, Bool.and_eq_true, bne_iff_ne, Bool.not_eq_true'] at all
    exact .plain all.1.1 all.1.2 (ih all.2)

/-- The password's place in a URL-like string of pairs: its quotes open behind a `://` and
the end of an authority, where the mask is inside a quoted password too. -/
def Place.Masked : Place → Prop
  | .quoted pairs _ => ∃ scheme front, splitScheme (pairs.before ++ ['\'']) = some (scheme, front) ∧
      (∃ char ∈ front, endsAuthority char = true) ∧ Inside (front.drop (opened front))
  | _ => False

theorem quoted_last (pairs : Pairs) : (pairs.before ++ ['\'']).getLast? = some '\'' :=
  List.getLast?_concat

theorem mode_behind_quote {front : List Char} (last : front.getLast? = some '\'') (start : Mode)
    (masked : Bool) : masker.mode start front ≠ .escaped masked := by
  obtain ⟨init, rfl⟩ := List.getLast?_eq_some_iff.mp last
  rw [masker.mode_append]
  change masker.next (masker.mode start init) '\'' ≠ _
  cases masker.mode start init with
  | key read => exact nofun
  | start masked => exact nofun
  | bare masked => exact nofun
  | quoted masked => exact nofun
  | escaped masked => exact nofun

theorem leaks_quoted (pairs : Pairs) (keyed : pairs.Keyed)
    (open' : ¬ Place.Masked (.quoted pairs keyed)) :
    Leaks (.quoted pairs keyed) := by
  have last := quoted_last pairs
  cases found : splitScheme (pairs.before ++ ['\'']) with
  | none =>
    -- a mark within the password makes everything before it a scheme
    refine ⟨quotedLeak 'x', quotedLeak 'y', spelled_of_all (by decide),
      spelled_of_all (by decide), ?_⟩
    have later (letter : Char) (free : ':' ∉ [letter]) :
        splitScheme (Place.fill (.quoted pairs keyed) (quotedLeak letter)) =
          some (pairs.before ++ ['\''] ++ ([letter] ++ []), '\'' :: pairs.after) := by
      have first := splitScheme_first free ('\'' :: pairs.after)
      have rest :=
        splitScheme_later found (by rw [last]; decide) (quotedLeak letter ++ '\'' :: pairs.after)
      rw [show quotedLeak letter ++ '\'' :: pairs.after =
        [letter] ++ schemeMark ++ '\'' :: pairs.after from rfl,
        first] at rest
      exact rest
    exact shown_in_scheme (later 'x' (by decide)) (later 'y' (by decide)) (by decide)
  | some parts =>
    obtain ⟨scheme, front⟩ := parts
    have split (text : List Char) : splitScheme (Place.fill (.quoted pairs keyed) text) =
        some (scheme, front ++ (text ++ '\'' :: pairs.after)) := splitScheme_append found _
    by_cases ended : ∃ char ∈ front, endsAuthority char = true
    · refine ⟨blankLeak 'x', blankLeak 'y', spelled_of_all (by decide),
        spelled_of_all (by decide), ?_⟩
      refine told_apart (split _) (split _) (.inl ended) (.inl ended) (blankLeak_tells ?_ ?_)
      · intro reached
        exact open' ⟨scheme, front, found, ended, (inside_iff _).mp reached⟩
      · intro masked
        obtain ⟨char, inside, _⟩ := ended
        have some : front ≠ [] := List.ne_nil_of_mem inside
        refine mode_behind_quote ?_ _ masked
        rw [List.getLast?_drop, if_neg (Nat.not_le.mpr (opened_lt some))]
        rw [splitScheme_parts found, List.getLast?_append_of_ne_nil _ (by simp [schemeMark]),
          List.getLast?_append_of_ne_nil _ some] at last
        exact last
    · -- an `@` in the password still belongs to the authority, and hides only what precedes it
      refine ⟨userLeak 'x', userLeak 'y', spelled_of_all (by decide),
        spelled_of_all (by decide), ?_⟩
      have open'' : ∀ char ∈ front, (!endsAuthority char) = true := by
        intro char inside
        rw [Bool.not_eq_true']
        exact Bool.eq_false_iff.mpr fun ends => ended ⟨char, inside, ends⟩
      have shows (letter : Char) (plain : endsAuthority letter = false ∧ letter ≠ '@') :
          redactDsn (Place.fill (.quoted pairs keyed) (userLeak letter)) = scheme ++ schemeMark ++
            (maskUserinfo front ++ masker.output .outside
              (userLeak letter ++ '\'' :: pairs.after)) := by
        have reach : authority (front ++ (userLeak letter ++ '\'' :: pairs.after)) =
            front ++ '@' :: [' ', letter, ' '] := by
          have ends : endsAuthority '/' = true := rfl
          have stays : endsAuthority '@' = false ∧ endsAuthority ' ' = false := ⟨rfl, rfl⟩
          rw [authority, List.takeWhile_append_of_pos open'']
          simp only [userLeak, List.cons_append, List.takeWhile_cons, ends, stays.1, stays.2,
            plain.1, Bool.not_true, Bool.not_false, if_true, Bool.false_eq_true, if_false]
        have place : rfindAt (authority (front ++ (userLeak letter ++ '\'' :: pairs.after))) =
            some front.length := by
          rw [reach]
          exact rfindAt_last front (by simp [Ne.symm plain.2])
        rw [redactDsn_split (split _), shownUser, opened, place, mask_output]
        simp
      rw [shows 'x' (by decide), shows 'y' (by decide)]
      intro equal
      have outputs := List.append_cancel_left (List.append_cancel_left equal)
      have tells : Tells .outside (userLeak 'x') (userLeak 'y') := by decide
      exact @Transducer.output_apart _ _ _ masker .outside [] _ _ _ tells.1 tells.2 outputs

theorem hidden_quoted {pairs : Pairs} {keyed : pairs.Keyed}
    (masked : Place.Masked (.quoted pairs keyed)) (valid : Place.Valid (.quoted pairs keyed) text) :
    redactDsn (Place.fill (.quoted pairs keyed) text) =
      redactDsn (Place.fill (.quoted pairs keyed) []) := by
  obtain ⟨scheme, front, found, ended, inside⟩ := masked
  have reached := (inside_iff _).mpr inside
  have split (text : List Char) : splitScheme (Place.fill (.quoted pairs keyed) text) =
      some (scheme, front ++ (text ++ '\'' :: pairs.after)) := splitScheme_append found _
  rw [redactDsn_settled (split text) (.inl ended), redactDsn_settled (split []) (.inl ended)]
  have spelled : Spelled (· == '\'') text := valid
  rw [masker.output_silent _ (by rw [reached, mode_spelled spelled])
    (by rw [reached, output_spelled spelled])]
  rfl

/-- Whatever other password the driver takes in the same place, the redacted string says the
same, exactly where the place is masked. -/
theorem redacted_hides_iff (accepts : List Char → Bool) (place : Place)
    (accepted : ∀ text, place.Valid text → accepts (place.fill text) = true) :
    (∀ password other, place.Valid password → place.Valid other →
      redacted accepts (place.fill password) = redacted accepts (place.fill other)) ↔
        place.Masked := by
  have shown {text : List Char} (valid : place.Valid text) :
      redacted accepts (place.fill text) = redactDsn (place.fill text) :=
        if_pos (accepted text valid)
  have apart (leaks : Leaks place) : ¬ ∀ password other, place.Valid password → place.Valid other →
      redacted accepts (place.fill password) = redacted accepts (place.fill other) := by
    obtain ⟨left, right, validLeft, validRight, different⟩ := leaks
    intro same
    have equal := same left right validLeft validRight
    rw [shown validLeft, shown validRight] at equal
    exact different equal
  cases place with
  | quoted pairs keyed =>
    constructor
    · intro same
      by_contra open'
      exact apart (leaks_quoted pairs keyed open') same
    · intro masked password other validPassword validOther
      rw [shown validPassword, shown validOther, hidden_quoted masked validPassword,
        hidden_quoted masked validOther]
  | bare pairs keyed => exact ⟨fun same => apart (leaks_bare pairs keyed) same, False.elim⟩
  | credentials url => exact ⟨fun same => apart (leaks_credentials url) same, False.elim⟩
  | query url => exact ⟨fun same => apart (leaks_query url) same, False.elim⟩

def keyLetter (char : Char) : Bool := !isWhitespace char && char != '='

theorem named_of_all {key : List Char} (some : key ≠ []) (all : key.all keyLetter = true) :
    key ≠ [] ∧ ∀ char ∈ key, isWhitespace char = false ∧ char ≠ '=' := by
  refine ⟨some, fun char inside => ?_⟩
  simpa [keyLetter] using List.all_eq_true.mp all char inside

def blankSeparator : Separator := ⟨[' '], by decide, List.forall_mem_singleton.mpr rfl⟩

def hostPair : Pair where
  key := ['h', 'o', 's', 't']
  left := []
  right := []
  value := .bare ['d', 'b']
  named := named_of_all (by decide) (by decide)
  blankLeft := nofun
  blankRight := nofun
  valid := ⟨by decide, by decide, spelled_of_all (by decide)⟩

/-- The pair `options='://?'`, which puts a mark and the end of an authority before the rest. -/
def optionsPair : Pair where
  key := ['o', 'p', 't', 'i', 'o', 'n', 's']
  left := []
  right := []
  value := .quoted [':', '/', '/', '?']
  named := named_of_all (by decide) (by decide)
  blankLeft := nofun
  blankRight := nofun
  valid := spelled_of_all (by decide)

/-- A pair, then a password with `blank` on both sides of its equals sign. -/
def behindPair (pair : Pair) (blank : List Char) (spaces : Blank blank) : Pairs where
  lead := []
  earlier := [(pair, blankSeparator)]
  left := blank
  right := blank
  later := []
  trail := []
  blankLead := nofun
  blankLeft := spaces
  blankRight := spaces
  blankTrail := nofun

/-- `host=db password = ...` -/
def spacedPassword : Place :=
  .bare (behindPair hostPair [' '] (List.forall_mem_singleton.mpr rfl)) (by decide +kernel)

/-- `options='://?' password='...'` -/
def quotedPassword : Place := .quoted (behindPair optionsPair [] nofun) (by decide +kernel)

/-- With blanks around the equals sign the password is printed. -/
theorem spaced_password_shown :
    spacedPassword.Valid "hunter2".toList ∧ spacedPassword.Valid "swordfish".toList ∧
      redacted (fun _ => true) (spacedPassword.fill "hunter2".toList) =
        "host=db password = hunter2".toList ∧
      redacted (fun _ => true) (spacedPassword.fill "swordfish".toList) =
        "host=db password = swordfish".toList := by
  refine ⟨⟨by decide, by decide, spelled_of_all (by decide +kernel)⟩,
    ⟨by decide, by decide, spelled_of_all (by decide +kernel)⟩, ?_, ?_⟩
  · decide +kernel
  · decide +kernel

theorem quoted_password_masked :
    quotedPassword.Masked ∧ ∀ password other, quotedPassword.Valid password →
      quotedPassword.Valid other →
      redacted (fun _ => true) (quotedPassword.fill password) =
        redacted (fun _ => true) (quotedPassword.fill other) := by
  have masked : quotedPassword.Masked := by
    refine ⟨['o', 'p', 't', 'i', 'o', 'n', 's', '=', '\''],
      ['?', '\'', ' '] ++ (['p', 'a', 's', 's', 'w', 'o', 'r', 'd'] ++ ['=', '\'']),
      by decide +kernel, ⟨'?', by decide, rfl⟩, ['?', '\'', ' '], _, [], ?_, ?_, ?_, .nil, rfl⟩
    · have quote : ∀ char ∈ ['\''], isKeyChar char = true := List.forall_mem_singleton.mpr rfl
      exact @Tokens.word [] _ '?' nofun rfl (@Tokens.word ['\''] _ ' ' quote rfl .nil)
    · exact List.all_eq_true.mp (by decide)
    · decide +kernel
  exact ⟨masked, (redacted_hides_iff (fun _ => true) quotedPassword fun _ _ => rfl).mpr masked⟩

end Places

end Dbsec.PasswordPlaces
