import Dbsec.Text
import Dbsec.Transducers

/-! A connection string with its password masked: `Dsn::redacted`, `redact_dsn` and
`mask_password_parameters` of proxy/src/config.rs. Only ASCII bytes are compared there, so
the text is read by characters; the character behind a backslash is passed over whole,
since the bytes of a longer one are no ASCII bytes. -/
namespace Dbsec.Redaction
open Text

section Source

def redactedMark : List Char := "<redacted>".toList

def isDelimiter (char : Char) : Bool :=
  char == ' ' || char == '\t' || char == '&' || char == '?' || char == '/' || char == '@'

def isKeyChar (char : Char) : Bool := char != '=' && !isDelimiter char

def endsValue (char : Char) : Bool := char == ' ' || char == '\t' || char == '&'

/-- A quoted value behind its opening quote, with its closing one, and what follows. -/
def quotedSpan : List Char → List Char × List Char
  | '\\' :: char :: rest => ('\\' :: char :: (quotedSpan rest).1, (quotedSpan rest).2)
  | '\'' :: rest => (['\''], rest)
  | char :: rest => (char :: (quotedSpan rest).1, (quotedSpan rest).2)
  | [] => ([], [])

def valueSpan : List Char → List Char × List Char
  | '\'' :: rest => ('\'' :: (quotedSpan rest).1, (quotedSpan rest).2)
  | text => (text.takeWhile fun char => !endsValue char, text.dropWhile fun char => !endsValue char)

def isPassword (key : List Char) : Bool := equalIgnoringCase key "password".toList

def maskWithin : Nat → List Char → List Char
  | 0, _ => []
  | _, [] => []
  | fuel + 1, first :: rest =>
    if isDelimiter first then first :: maskWithin fuel rest
    else
      let key := (first :: rest).takeWhile isKeyChar
      match (first :: rest).dropWhile isKeyChar with
      | '=' :: value =>
        let (shown, after) := valueSpan value
        key ++ '=' :: ((if isPassword key then redactedMark else shown) ++ maskWithin fuel after)
      | after => key ++ maskWithin fuel after

def maskPasswordParameters (input : List Char) : List Char := maskWithin (input.length + 1) input

def schemeMark : List Char := [':', '/', '/']

def splitScheme : List Char → Option (List Char × List Char)
  | [] => none
  | first :: rest =>
    if schemeMark.isPrefixOf (first :: rest) then some ([], rest.drop 2)
    else (splitScheme rest).map fun (scheme, behind) => (first :: scheme, behind)

def endsAuthority (char : Char) : Bool := char == '/' || char == '?'

def authority (rest : List Char) : List Char := rest.takeWhile fun char => !endsAuthority char

def rfindAt : List Char → Option Nat
  | [] => none
  | first :: rest =>
    match rfindAt rest with
    | some place => some (place + 1)
    | none => if first = '@' then some 0 else none

def maskUserinfo (userinfo : List Char) : List Char :=
  if ':' ∈ userinfo then userinfo.takeWhile (· ≠ ':') ++ ':' :: redactedMark else userinfo

def redactDsn (dsn : List Char) : List Char :=
  match splitScheme dsn with
  | none => maskPasswordParameters dsn
  | some (scheme, rest) =>
    match rfindAt (authority rest) with
    | none => scheme ++ schemeMark ++ maskPasswordParameters rest
    | some place =>
      scheme ++ schemeMark ++
        (maskUserinfo (rest.take place) ++ maskPasswordParameters (rest.drop place))

/-- `accepts` is the driver's own parser. -/
def redacted (accepts : List Char → Bool) (dsn : List Char) : List Char :=
  if accepts dsn then redactDsn dsn else "<unparseable control_dsn <redacted>>".toList

end Source

section Machine

/-- How far the mask is in the parameter it reads, and whether that is a password. -/
inductive Mode where
  | key (read : List Char)
  | start (masked : Bool)
  | bare (masked : Bool)
  | quoted (masked : Bool)
  | escaped (masked : Bool)
  deriving DecidableEq

def Mode.outside : Mode := .key []

def shown (masked : Bool) (char : Char) : List Char := if masked then [] else [char]

def masker : Transducer Mode Char Char where
  next
    | .key read, char =>
      if isDelimiter char then .outside else if char = '=' then .start (isPassword read)
      else .key (read ++ [char])
    | .start masked, char =>
      if char = '\'' then .quoted masked else if endsValue char then .outside else .bare masked
    | .bare masked, char => if endsValue char then .outside else .bare masked
    | .quoted masked, char =>
      if char = '\\' then .escaped masked else if char = '\'' then .outside else .quoted masked
    | .escaped masked, _ => .quoted masked
  emit
    | .key read, char => if char = '=' ∧ isPassword read = true then '=' :: redactedMark else [char]
    | .start masked, char => if endsValue char then [char] else shown masked char
    | .bare masked, char => if endsValue char then [char] else shown masked char
    | .quoted masked, char => shown masked char
    | .escaped masked, char => shown masked char

theorem endsValue_delimiter {char : Char} (ends : endsValue char = true) :
    isDelimiter char = true := by
  simp only [endsValue, Bool.or_eq_true] at ends
  simp only [isDelimiter, Bool.or_eq_true]
  tauto

theorem output_key (read text : List Char) :
    masker.output (.key read) text = text.takeWhile isKeyChar ++
      masker.output (.key (read ++ text.takeWhile isKeyChar)) (text.dropWhile isKeyChar) := by
  induction text generalizing read with
  | nil => rfl
  | cons first rest ih =>
    by_cases keyed : isKeyChar first = true
    · have parts := keyed
      simp only [isKeyChar, Bool.and_eq_true, bne_iff_ne, ne_eq, Bool.not_eq_true'] at parts
      have silent : ¬ (first = '=' ∧ isPassword read = true) := fun both => parts.1 both.1
      rw [List.takeWhile_cons_of_pos keyed, List.dropWhile_cons_of_pos keyed, List.cons_append]
      simp only [Transducer.output, masker, parts.1, parts.2, Bool.false_eq_true, if_false,
        false_and]
      have rest := ih (read ++ [first])
      rw [List.append_assoc] at rest
      exact congrArg (first :: ·) rest
    · rw [List.takeWhile_cons_of_neg keyed, List.dropWhile_cons_of_neg keyed, List.append_nil]
      rfl

theorem output_quoted (masked : Bool) (text : List Char) :
    masker.output (.quoted masked) text =
      (if masked then [] else (quotedSpan text).1) ++ masker.output .outside
        (quotedSpan text).2 := by
  fun_induction quotedSpan text with
  | case1 char rest ih =>
    simp only [Transducer.output, masker, if_true]
    change shown masked '\\' ++ (shown masked char ++ masker.output (.quoted masked) rest) = _
    rw [ih]
    cases masked <;> rfl
  | case2 rest => cases masked <;> rfl
  | case3 char rest plain quote ih =>
    have unescaped : masker.next (.quoted masked) char = if char = '\\' then .escaped masked
        else .quoted masked := by
      simp only [masker, if_neg quote]
    rw [Transducer.output, unescaped]
    change shown masked char ++ _ = _
    split
    · rename_i last
      subst last
      cases rest with
      | nil => cases masked <;> rfl
      | cons next rest => exact (plain next rest rfl rfl).elim
    · rw [ih]
      cases masked <;> rfl
  | case4 => cases masked <;> rfl

theorem output_bare (masked : Bool) (text : List Char) :
    masker.output (.bare masked) text =
      (if masked then [] else text.takeWhile fun char => !endsValue char) ++
        masker.output .outside (text.dropWhile fun char => !endsValue char) := by
  induction text with
  | nil => cases masked <;> rfl
  | cons first rest ih =>
    cases ends : endsValue first with
    | true =>
      have delimits := endsValue_delimiter ends
      have stops : first ≠ '=' := by
        rintro rfl
        cases ends
      simp only [Transducer.output, masker, ends, delimits, stops, if_true, List.takeWhile_cons,
        List.dropWhile_cons, Bool.not_true, Bool.false_eq_true, if_false, ite_self, List.nil_append,
        Mode.outside, false_and]
    | false =>
      simp only [Transducer.output, masker, ends, Bool.false_eq_true, if_false, List.takeWhile_cons,
        List.dropWhile_cons, Bool.not_false, if_true]
      change shown masked first ++ masker.output (.bare masked) rest = _
      rw [ih]
      cases masked <;> rfl

theorem output_start (masked : Bool) (text : List Char) :
    masker.output (.start masked) text =
      (if masked then [] else (valueSpan text).1) ++ masker.output .outside (valueSpan text).2 := by
  fun_cases valueSpan text with
  | case1 rest =>
    change shown masked '\'' ++ masker.output (.quoted masked) rest = _
    rw [output_quoted]
    cases masked <;> rfl
  | case2 =>
    rename_i unquoted
    have same : masker.output (.start masked) text = masker.output (.bare masked) text := by
      cases text with
      | nil => rfl
      | cons first rest =>
        have other : first ≠ '\'' := by
          rintro rfl
          exact unquoted rest rfl
        simp only [Transducer.output, masker, if_neg other]
    rw [same, output_bare]

theorem output_equals (key value : List Char) :
    masker.output (.key key) ('=' :: value) = '=' ::
      ((if isPassword key then redactedMark else (valueSpan value).1) ++
        masker.output .outside (valueSpan value).2) := by
  have started : masker.output (.key key) ('=' :: value) =
      (if '=' = '=' ∧ isPassword key = true then '=' :: redactedMark else ['=']) ++
        masker.output (.start (isPassword key)) value := rfl
  rw [started, output_start]
  cases isPassword key with
  | true => rfl
  | false => rfl

theorem output_delimiter {first : Char} (delimits : isDelimiter first = true)
    (key rest : List Char) :
    masker.output (.key key) (first :: rest) = first :: masker.output .outside rest := by
  have stops : first ≠ '=' := by
    rintro rfl
    cases delimits
  simp only [Transducer.output, masker, delimits, stops, if_true, false_and, if_false,
    List.singleton_append]

theorem quotedSpan_length (text : List Char) : (quotedSpan text).2.length ≤ text.length := by
  fun_induction quotedSpan text with
  | case1 char rest ih => simp only [List.length_cons]; omega
  | case2 rest => simp
  | case3 char rest _ _ ih => simp only [List.length_cons]; omega
  | case4 => simp

theorem valueSpan_length (text : List Char) : (valueSpan text).2.length ≤ text.length := by
  unfold valueSpan
  split
  · have shorter := quotedSpan_length
    rename_i rest
    exact Nat.le_succ_of_le (shorter rest)
  · exact (List.dropWhile_sublist _).length_le

theorem maskWithin_output (fuel : Nat) (text : List Char) (enough : text.length < fuel) :
    maskWithin fuel text = masker.output .outside text := by
  induction fuel generalizing text with
  | zero => exact absurd enough (Nat.not_lt_zero _)
  | succ fuel ih =>
    cases text with
    | nil => rfl
    | cons first rest =>
      simp only [List.length_cons] at enough
      by_cases delimits : isDelimiter first = true
      · rw [maskWithin, if_pos delimits, ih rest (by omega), Mode.outside,
          output_delimiter delimits]
        rfl
      · rw [Mode.outside, output_key, maskWithin, if_neg delimits, List.nil_append]
        have passed : ((first :: rest).dropWhile isKeyChar).length ≤ (first :: rest).length :=
          (List.dropWhile_sublist _).length_le
        have stopped := List.head?_dropWhile_not isKeyChar (first :: rest)
        cases behind : (first :: rest).dropWhile isKeyChar with
        | nil =>
          cases fuel with
          | zero => rfl
          | succ fuel => rfl
        | cons next more =>
          rw [behind, List.length_cons, List.length_cons] at passed
          simp only [behind, List.head?_cons] at stopped
          by_cases equals : next = '='
          · subst equals
            have shorter := valueSpan_length more
            rw [output_equals, ← ih (valueSpan more).2 (by omega)]
            rfl
          · -- the key ends at a delimiter, which is read next
            have delimiter : isDelimiter next = true := by
              simpa [isKeyChar, equals] using stopped
            have keyed : isKeyChar first = true := by
              by_contra other
              rw [List.dropWhile_cons_of_neg other, List.cons.injEq] at behind
              exact delimits (behind.1 ▸ delimiter)
            rw [List.dropWhile_cons_of_pos keyed] at behind
            have shorter := (List.dropWhile_sublist isKeyChar (l := rest)).length_le
            rw [behind, List.length_cons] at shorter
            have tail := ih (next :: more) (by rw [List.length_cons]; omega)
            rw [Mode.outside, output_delimiter delimiter] at tail
            rw [output_delimiter delimiter, ← tail]
            split
            · rename_i same
              cases same
              exact absurd rfl equals
            · rfl

theorem mask_output (text : List Char) :
    maskPasswordParameters text = masker.output .outside text :=
  maskWithin_output _ text (Nat.lt_succ_self _)

end Machine

end Dbsec.Redaction
