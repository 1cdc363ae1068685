import Dbsec.Batch

/-! What moves `search_path` and `standard_conforming_strings` on the server, against what
the token scan reports. A statement is the token sequence the scan sees; the server's
reading of it is given by the places in it that assign a setting. An expression is its
tokens and the value the server computes: only a literal without backslashes ties the two
together. -/
namespace Dbsec.SettingMoves
open Text Settings Batch Catalog Rewrite

def searchPath : List Char := "search_path".toList

def standardConformingStrings : List Char := "standard_conforming_strings".toList

def publicName : List Char := "public".toList

def userName : List Char := "$user".toList

section Server

/-- The names a session may find an unqualified name in without it having moved. -/
def Expected (element : List Char) : Prop := element = publicName ∨ element = userName

structure Server where
  path : List (List Char)
  conforming : Bool

inductive Assigned where
  | path (elements : List (List Char))
  | conforming (on : Bool)

def Server.assign (server : Server) : Assigned → Server
  | .path elements => { server with path := elements }
  | .conforming on => { server with conforming := on }

def Server.Moved (server : Server) : SettingMoved → Prop
  | .searchPath => ∃ element ∈ server.path, ¬ Expected element
  | .escapeStrings => server.conforming = false

def offWords : List (List Char) :=
  ["f", "fa", "fal", "fals", "false", "n", "no", "of", "off", "0"].map String.toList

def readsOff (value : List Char) : Bool := offWords.contains (value.map asciiLower)

def readsOn (value : List Char) : Bool :=
  (["t", "tr", "tru", "true", "y", "ye", "yes", "on", "1"].map String.toList).contains
    (value.map asciiLower)

def assignBool (value : List Char) : Option Assigned :=
  if readsOff value then some (.conforming false)
  else if readsOn value then some (.conforming true)
  else none

def isServerSpace (char : Char) : Bool := [' ', '\t', '\n', '\r', '\x0c'].contains char

/-- A quoted identifier behind its opening quote; a doubled quote stands for one. -/
def quotedName : List Char → Option (List Char × List Char)
  | [] => none
  | [char] => if char = '"' then some ([], []) else none
  | char :: next :: rest =>
    if char = '"' then
      if next = '"' then (quotedName rest).map fun read => ('"' :: read.1, read.2)
      else some ([], next :: rest)
    else (quotedName (next :: rest)).map fun read => (char :: read.1, read.2)

def bareName (text : List Char) : List Char × List Char :=
  text.span fun char => char ≠ ',' && !isServerSpace char

def identifier (text : List Char) : Option (List Char × List Char) :=
  match text with
  | '"' :: rest => quotedName rest
  | text =>
    if (bareName text).1.isEmpty then none
    else some ((bareName text).1.map asciiLower, (bareName text).2)

def splitWithin : Nat → List Char → Option (List (List Char))
  | 0, _ => none
  | fuel + 1, text =>
    match identifier (text.dropWhile isServerSpace) with
    | none => none
    | some (name, rest) =>
      match rest.dropWhile isServerSpace with
      | [] => some [name]
      | ',' :: more => (splitWithin fuel more).map (name :: ·)
      | _ => none

/-- A list of identifiers as the server reads it out of one string. -/
def splitIdentifiers (text : List Char) : Option (List (List Char)) :=
  if (text.dropWhile isServerSpace).isEmpty then some [] else splitWithin (text.length + 1) text

/-- `SET name TO values`: each value of a list is one element. -/
def assignList (name : List Char) (values : List (List Char)) : Option Assigned :=
  if equalIgnoringCase name searchPath then some (.path values)
  else if equalIgnoringCase name standardConformingStrings then
    match values with
    | [value] => assignBool value
    | _ => none
  else none

/-- `set_config(name, value, …)`: the value is one string. -/
def assignText (name value : List Char) : Option Assigned :=
  if equalIgnoringCase name searchPath then (splitIdentifiers value).map .path
  else if equalIgnoringCase name standardConformingStrings then assignBool value
  else none

end Server

section Sites

/-- A string expression: its tokens and what the server computes from them. -/
structure StringExpr where
  tokens : List Token
  value : List Char
  nonempty : tokens ≠ []
  /-- A comma right behind a literal ends the argument. -/
  single : ∀ text rest, tokens ≠ .singleQuoted text :: .comma :: rest
  literal : ∀ text, tokens = [.singleQuoted text] → '\\' ∉ text → value = text

/-- How an identifier is written. `U&"…"` comes as the word `U`, an operator and a quoted
word, whose escapes only the server reads. -/
inductive Spelling where
  | bare (text : List Char)
  | quoted (text : List Char)
  | unicode (letter text name : List Char)

def Spelling.tokens : Spelling → List Token
  | .bare text => [.word text false]
  | .quoted text => [.word text true]
  | .unicode letter text _ => [.word letter false, .other, .word text true]

/-- The identifier the server reads. -/
def Spelling.name : Spelling → List Char
  | .bare text => text.map asciiLower
  | .quoted text => text
  | .unicode _ _ name => name

/-- A value of a SET list. A literal goes on in the literals right behind it. A string that
is not written in plain quotes begins with a token whose text the scan does not read. -/
inductive SetItem where
  | word (spelled : Spelling)
  | literal (text : List Char) (more : List (List Char)) (value : List Char)
      (reads : (∀ part ∈ text :: more, '\\' ∉ part) → value = (text :: more).flatten)
  | otherString (more : List Token) (value : List Char)
  | number (text : List Char)
  | signed (text : List Char)

def SetItem.tokens : SetItem → List Token
  | .word spelled => spelled.tokens
  | .literal text more _ _ => (text :: more).map .singleQuoted
  | .otherString more _ => .other :: more
  | .number text => [.number text]
  | .signed text => [.other, .number text]

def SetItem.value : SetItem → List Char
  | .word spelled => spelled.name
  | .literal _ _ value _ => value
  | .otherString _ value => value
  | .number text => text
  | .signed text => '-' :: text

def listTokens : List SetItem → List Token
  | [] => []
  | [item] => item.tokens
  | item :: rest => item.tokens ++ .comma :: listTokens rest

/-- A place of a statement that assigns a setting. A call may name its arguments, and then
has them in any order. -/
inductive Site where
  | set (scope : List Token) (name : Spelling) (items : List SetItem)
  | schema (scope : List Token) (item : SetItem)
  | call (function : Spelling) (name value : StringExpr)
  | namedCall (function argument : Spelling) (name value : List Char)

def IsScope (scope : List Token) : Prop :=
  scope = [] ∨ ∃ token, scope = [token] ∧
    (isKeyword token "session" = true ∨ isKeyword token "local" = true)

/-- Where a site stands in a statement: SET makes up all of it, a call may stand anywhere,
schema-qualified or not. -/
def Site.Within (statement : List Token) : Site → Prop
  | .set scope name items => IsScope scope ∧ items ≠ [] ∧ ∃ first separator,
      isKeyword first "set" = true ∧ (separator = .eq ∨ isKeyword separator "to" = true) ∧
      statement = first :: (scope ++ (name.tokens ++ separator :: listTokens items))
  | .schema scope item => IsScope scope ∧ (∀ spelled, item ≠ .word spelled) ∧ ∃ first schema,
      isKeyword first "set" = true ∧ isKeyword schema "schema" = true ∧
      statement = first :: (scope ++ schema :: item.tokens)
  | .call function name value => function.name = "set_config".toList ∧
      ∃ before after, statement = before ++ (function.tokens ++ .lParen ::
        (name.tokens ++ .comma :: (value.tokens ++ .comma :: after)))
  | .namedCall function argument _ _ => function.name = "set_config".toList ∧
      ∃ before after, statement = before ++ (function.tokens ++ .lParen ::
        (argument.tokens ++ after))

def Site.assigned : Site → Option Assigned
  | .set _ name items => assignList name.name (items.map SetItem.value)
  | .schema _ item => some (.path [item.value])
  | .call _ name value => assignText name.value value.value
  | .namedCall _ _ name value => assignText name value

/-- Executing a statement makes any of its assignments, any number of times. What is
allowed of them is a condition on those that are made. -/
inductive Executes (allowed : Site → Prop) (statement : List Token) : Server → Server → Prop where
  | done {server : Server} : Executes allowed statement server server
  | assign {server after : Server} {site : Site} {assigned : Assigned} :
      site.Within statement → allowed site → site.assigned = some assigned →
      Executes allowed statement (server.assign assigned) after →
      Executes allowed statement server after

theorem Executes.weaken {allowed wider : Site → Prop} {statement : List Token}
    {server after : Server}
    (ran : Executes allowed statement server after) (implies : ∀ site, allowed site → wider site) :
    Executes wider statement server after := by
  induction ran with
  | done => exact .done
  | assign stands kept assigned _ ih => exact .assign stands (implies _ kept) assigned ih

/-- A sequence of statements, each behind the other. -/
inductive Runs (allowed : Site → Prop) : List (List Token) → Server → Server → Prop where
  | done {server : Server} : Runs allowed [] server server
  | next {statement : List Token} {rest : List (List Token)} {server middle after : Server} :
      Executes allowed statement server middle → Runs allowed rest middle after →
      Runs allowed (statement :: rest) server after

def statementsOf (tokens : List Token) : List (List Token) :=
  ((tokens.filter (· ≠ .whitespace)).splitOn .semiColon).filter (!·.isEmpty)

end Sites

section Plain

def BareWord (text : List Char) : Prop :=
  text ≠ [] ∧ ∀ char ∈ text, char ≠ ',' ∧ char ≠ '"' ∧ isWhitespace char = false

/-- One element of a list in a string: a bare or a quoted name among the server's spaces. -/
def PlainPart (part : List Char) : Prop :=
  ∃ before name after, BareWord name ∧ (∀ char ∈ before ++ after, isServerSpace char = true) ∧
    (part = before ++ (name ++ after) ∨ part = before ++ ('"' :: (name ++ ('"' :: after))))

def SetItem.Plain : SetItem → Prop
  | .literal text more _ _ => BareWord text ∧ more = []
  | _ => True

def defaultWords : List (List Char) :=
  [publicName, userName] ++ ["on", "true", "t", "yes", "y", "1"].map String.toList

/-- A value is one literal, or an expression that begins with neither a literal nor a word
that reads as a default. -/
def PlainValue (value : StringExpr) : Prop :=
  match value.tokens with
  | [.singleQuoted text] => ∀ part ∈ text.splitOn ',', PlainPart part
  | .singleQuoted _ :: _ => False
  | .word text _ :: _ => text.map asciiLower ∉ defaultWords
  | .number text :: _ => text.map asciiLower ∉ defaultWords
  | _ => True

/-- Written so that the scan reads it: the names of a SET and of the function are bare, and
a setting whose name is computed or behind an argument name is not the one that is then
not reported. -/
def Site.Plain : Site → Prop
  | .set _ name items => (∃ text, name = .bare text) ∧
      (equalIgnoringCase name.name searchPath = true → ∀ item ∈ items, item.Plain)
  | .schema _ item => item.Plain
  | .call function name value => (∃ text, function = .bare text) ∧
      ((∃ text, name.tokens = [.singleQuoted text] ∧ '\\' ∉ text) ∧ PlainValue value ∨
        (∀ text, name.tokens ≠ [.singleQuoted text]) ∧
          equalIgnoringCase name.value standardConformingStrings = false)
  | .namedCall function _ name _ => (∃ text, function = .bare text) ∧
      equalIgnoringCase name standardConformingStrings = false

end Plain

section Texts

theorem asciiLower_idem (char : Char) : asciiLower (asciiLower char) = asciiLower char := by
  by_cases letter : 'A' ≤ char ∧ char ≤ 'Z'
  · have low : 65 ≤ char.toNat := UInt32.le_iff_toNat_le.mp (Char.le_def.mp letter.1)
    have high : char.toNat ≤ 90 := UInt32.le_iff_toNat_le.mp (Char.le_def.mp letter.2)
    have lower : (asciiLower char).toNat = char.toNat + 32 := by
      rw [asciiLower, if_pos letter, Char.toNat_ofNat, if_pos (.inl (by omega))]
    have outside : ¬ ('A' ≤ asciiLower char ∧ asciiLower char ≤ 'Z') := by
      intro again
      have top : (asciiLower char).toNat ≤ 90 := UInt32.le_iff_toNat_le.mp (Char.le_def.mp again.2)
      omega
    rw [asciiLower, if_neg outside]
  · have same : asciiLower char = char := by rw [asciiLower, if_neg letter]
    rw [same, same]

variable {drops : Char → Bool} {text : List Char} {char : Char}

theorem mem_dropWhile (listed : char ∈ text) (kept : drops char = false) :
    char ∈ text.dropWhile drops := by
  induction text with
  | nil => cases listed
  | cons first rest ih =>
    rw [List.dropWhile_cons]
    split
    · rename_i dropped
      rcases List.mem_cons.mp listed with rfl | later
      · rw [kept] at dropped
        cases dropped
      · exact ih later
    · exact listed

theorem mem_trimMatches (listed : char ∈ text) (kept : drops char = false) :
    char ∈ trimMatches drops text := by
  simp only [trimMatches, trimEnd, List.mem_reverse]
  exact mem_dropWhile (List.mem_reverse.mpr (mem_dropWhile listed kept)) kept

theorem dropWhile_none (kept : ∀ char ∈ text, drops char = false) :
    text.dropWhile drops = text := by
  cases text with
  | nil => rfl
  | cons first rest => simp [kept first List.mem_cons_self]

theorem trimMatches_none (kept : ∀ char ∈ text, drops char = false) :
    trimMatches drops text = text := by
  have reversed : ∀ char ∈ text.reverse, drops char = false := by
    intro char listed
    exact kept char (List.mem_reverse.mp listed)
  simp only [trimMatches, trimEnd, dropWhile_none kept, dropWhile_none reversed,
    List.reverse_reverse]

theorem dropWhile_kept {rest : List Char} (nonempty : text ≠ [])
    (kept : ∀ char ∈ text, drops char = false) : (text ++ rest).dropWhile drops = text ++ rest := by
  cases text with
  | nil => exact absurd rfl nonempty
  | cons first text =>
    rw [List.cons_append, List.dropWhile_cons, kept first List.mem_cons_self]
    rfl

theorem trimMatches_around {drops : Char → Bool} {before text after : List Char}
    (nonempty : text ≠ []) (dropped : ∀ char ∈ before ++ after, drops char = true)
    (kept : ∀ char ∈ text, drops char = false) :
    trimMatches drops (before ++ (text ++ after)) = text := by
  have front : ∀ char ∈ before, drops char = true :=
    fun char listed => dropped char (List.mem_append_left _ listed)
  have back : ∀ char ∈ after.reverse, drops char = true :=
    fun char listed => dropped char (List.mem_append_right _ (List.mem_reverse.mp listed))
  have inner : ∀ char ∈ text.reverse, drops char = false :=
    fun char listed => kept char (List.mem_reverse.mp listed)
  simp only [trimMatches, trimEnd]
  rw [List.dropWhile_append_of_pos front, dropWhile_kept nonempty kept, List.reverse_append,
    List.dropWhile_append_of_pos back, dropWhile_none inner, List.reverse_reverse]

def readPart (part : List Char) : List Char := trimMatches (· = '"') (trim part)

theorem readPart_bare (bare : BareWord text) : readPart text = text := by
  have spaces : trim text = text := trimMatches_none fun char listed => (bare.2 char listed).2.2
  rw [readPart, spaces]
  exact trimMatches_none fun char listed => by simpa using (bare.2 char listed).2.1

theorem mem_intercalate {parts : List (List Char)} {separator : Char}
    (listed : char ∈ [separator].intercalate parts) :
    char = separator ∨ ∃ part ∈ parts, char ∈ part := by
  induction parts with
  | nil => simp [List.intercalate] at listed
  | cons part rest ih =>
    cases rest with
    | nil =>
      rw [List.intercalate_singleton] at listed
      exact .inr ⟨part, List.mem_cons_self, listed⟩
    | cons next rest =>
      rw [List.intercalate_cons_cons] at listed
      simp only [List.append_assoc, List.mem_append, List.mem_singleton] at listed
      rcases listed with here | rfl | later
      · exact .inr ⟨part, List.mem_cons_self, here⟩
      · exact .inl rfl
      · rcases ih later with same | ⟨other, member, inside⟩
        · exact .inl same
        · exact .inr ⟨other, List.mem_cons_of_mem _ member, inside⟩

theorem backslash_read (listed : '\\' ∈ text) :
    ∃ name ∈ (text.splitOn ',').map readPart, '\\' ∈ name := by
  have joined := @List.intercalate_splitOn _ text _ _ ','
  rw [← joined] at listed
  rcases mem_intercalate listed with same | ⟨part, member, inside⟩
  · cases same
  · refine ⟨readPart part, List.mem_map_of_mem member, ?_⟩
    exact mem_trimMatches (mem_trimMatches inside (by decide)) (by decide)

theorem settingValues_literal (text : List Char) :
    settingValues [.singleQuoted text] = some ((text.splitOn ',').map readPart) := by
  simp only [settingValues, Option.bind_eq_bind, Option.bind_some, Option.pure_def, List.append_nil]
  rfl

theorem settingValues_literals (parts : List (List Char)) (rest : List Token) :
    settingValues (parts.map .singleQuoted ++ rest) = (settingValues rest).map fun later =>
      (parts.flatMap fun text => (text.splitOn ',').map readPart) ++ later := by
  induction parts with
  | nil => simp
  | cons text more ih =>
    rw [List.map_cons, List.cons_append, settingValues, ih]
    cases settingValues rest with
    | none => rfl
    | some later =>
      simp only [Option.map_some, Option.bind_eq_bind, Option.bind_some, Option.pure_def,
        List.flatMap_cons, List.append_assoc]
      rfl

theorem isDefault_iff {values : List (List Char)} :
    isDefaultSearchPath (some values) = true ↔
      (∀ name ∈ values, Expected name) ∧ publicName ∈ values := by
  simp only [isDefaultSearchPath, Bool.and_eq_true, List.all_eq_true, Bool.or_eq_true, beq_iff_eq,
    List.any_eq_true, exists_eq_right]
  exact Iff.rfl

theorem no_backslash_expected {name : List Char} (expected : Expected name) : '\\' ∉ name := by
  rcases expected with rfl | rfl <;> decide

end Texts

section Lists

variable {char : Char}

theorem serverSpace_blank (space : isServerSpace char = true) :
    isWhitespace char = true ∧ char ≠ ',' ∧ char ≠ '"' := by
  simp only [isServerSpace, List.contains_iff_mem, List.mem_cons, List.not_mem_nil, or_false]
    at space
  rcases space with rfl | rfl | rfl | rfl | rfl <;> decide

variable {text : List Char}

theorem not_space_of_bare (bare : BareWord text) (listed : char ∈ text) :
    isServerSpace char = false := by
  rw [Bool.eq_false_iff]
  intro space
  have blank := (serverSpace_blank space).1
  rw [(bare.2 char listed).2.2] at blank
  cases blank

/-- What may follow a name in a list: spaces, then the end or a comma. -/
def Ends (rest : List Char) : Prop :=
  ∃ after tail, rest = after ++ tail ∧ (∀ char ∈ after, isServerSpace char = true) ∧
    (tail = [] ∨ ∃ more, tail = ',' :: more)

variable {rest : List Char}

theorem Ends.head (ends : Ends rest) {more : List Char} (split : rest = char :: more) :
    isServerSpace char = true ∨ char = ',' := by
  obtain ⟨after, tail, rfl, spaces, last⟩ := ends
  cases after with
  | nil =>
    rcases last with rfl | ⟨next, rfl⟩
    · cases split
    · cases split
      exact .inr rfl
  | cons first after =>
    cases split
    exact .inl (spaces _ List.mem_cons_self)

variable {name : List Char}

theorem bareName_bare (bare : BareWord name) (ends : Ends rest) :
    bareName (name ++ rest) = (name, rest) := by
  have kept : ∀ char ∈ name, (char ≠ ',' && !isServerSpace char) = true := by
    intro char listed
    simp [(bare.2 char listed).1, not_space_of_bare bare listed]
  have stops : rest.takeWhile (fun char => char ≠ ',' && !isServerSpace char) = [] ∧
      rest.dropWhile (fun char => char ≠ ',' && !isServerSpace char) = rest := by
    cases split : rest with
    | nil => exact ⟨rfl, rfl⟩
    | cons char more =>
      have stop : (char ≠ ',' && !isServerSpace char) = false := by
        rcases ends.head split with space | rfl
        · simp [space]
        · simp
      rw [List.takeWhile_cons, List.dropWhile_cons, stop]
      exact ⟨rfl, rfl⟩
  rw [bareName, List.span_eq_takeWhile_dropWhile, List.takeWhile_append_of_pos kept,
    List.dropWhile_append_of_pos kept, stops.1, stops.2, List.append_nil]

theorem quotedName_bare (unquoted : ∀ char ∈ name, char ≠ '"') (ends : Ends rest) :
    quotedName (name ++ '"' :: rest) = some (name, rest) := by
  induction name with
  | nil =>
    cases split : rest with
    | nil => rfl
    | cons char more =>
      have other : char ≠ '"' := by
        rcases ends.head split with space | rfl
        · exact (serverSpace_blank space).2.2
        · decide
      simp [quotedName, other]
  | cons char name ih =>
    have here := unquoted char List.mem_cons_self
    have later := ih fun other listed => unquoted other (List.mem_cons_of_mem _ listed)
    cases name with
    | nil =>
      simp only [List.nil_append, List.cons_append] at later ⊢
      simp only [quotedName, here, if_false, later, Option.map_some]
    | cons next name =>
      simp only [List.cons_append] at later ⊢
      simp only [quotedName, here, if_false, later, Option.map_some]

variable {after : List Char}

theorem Ends.spaces (ends : Ends rest) (blank : ∀ char ∈ after, isServerSpace char = true) :
    Ends (after ++ rest) := by
  obtain ⟨more, tail, rfl, spaces, last⟩ := ends
  refine ⟨after ++ more, tail, by rw [List.append_assoc], ?_, last⟩
  intro char listed
  rcases List.mem_append.mp listed with here | there
  · exact blank char here
  · exact spaces char there

variable {before : List Char}

theorem readPart_bare_among (bare : BareWord name)
    (blank : ∀ char ∈ before ++ after, isWhitespace char = true) :
    readPart (before ++ (name ++ after)) = name := by
  have trimmed : trim (before ++ (name ++ after)) = name :=
    trimMatches_around bare.1 blank fun char listed => (bare.2 char listed).2.2
  rw [readPart, trimmed]
  exact trimMatches_none fun char listed => by simpa using (bare.2 char listed).2.1

theorem readPart_quoted_among (bare : BareWord name)
    (blank : ∀ char ∈ before ++ after, isWhitespace char = true) :
    readPart (before ++ ('"' :: (name ++ ('"' :: after)))) = name := by
  have core : trim (before ++ ('"' :: (name ++ ('"' :: after)))) = '"' :: (name ++ ['"']) := by
    have around := @trimMatches_around isWhitespace before ('"' :: (name ++ ['"'])) after
      (by simp) blank (by
        intro char listed
        simp only [List.mem_cons, List.mem_append, List.not_mem_nil, or_false] at listed
        rcases listed with rfl | inside | rfl
        · decide
        · exact (bare.2 char inside).2.2
        · decide)
    simpa [trim, trimMatches] using around
  rw [readPart, core]
  exact @trimMatches_around (· = '"') ['"'] name ['"'] bare.1 (by simp)
    fun char listed => by simpa using (bare.2 char listed).2.1

theorem identifier_plain {part rest : List Char} (plain : PlainPart part) (ends : Ends rest) :
    ∃ name after, identifier ((part ++ rest).dropWhile isServerSpace) = some (name, after) ∧
      after.dropWhile isServerSpace = rest.dropWhile isServerSpace ∧
      (name = readPart part ∨ name = (readPart part).map asciiLower) := by
  obtain ⟨before, name, after, bare, spaces, shape⟩ := plain
  have front : ∀ char ∈ before, isServerSpace char = true :=
    fun char listed => spaces char (List.mem_append_left _ listed)
  have back : ∀ char ∈ after, isServerSpace char = true :=
    fun char listed => spaces char (List.mem_append_right _ listed)
  have blank : ∀ char ∈ before ++ after, isWhitespace char = true :=
    fun char listed => (serverSpace_blank (spaces char listed)).1
  have follows := ends.spaces back
  rcases shape with rfl | rfl
  · refine ⟨name.map asciiLower, after ++ rest, ?_, List.dropWhile_append_of_pos back,
      .inr (by rw [readPart_bare_among bare blank])⟩
    rw [List.append_assoc, List.dropWhile_append_of_pos front, List.append_assoc,
      dropWhile_kept bare.1 fun char listed => not_space_of_bare bare listed]
    unfold identifier
    split
    · rename_i inner split
      cases name with
      | nil => exact absurd rfl bare.1
      | cons first name =>
        cases split
        exact absurd rfl (bare.2 '"' List.mem_cons_self).2.1
    · rw [bareName_bare bare follows, if_neg (by simpa using bare.1)]
  · refine ⟨name, after ++ rest, ?_, List.dropWhile_append_of_pos back,
      .inl (readPart_quoted_among bare blank).symm⟩
    rw [List.append_assoc, List.dropWhile_append_of_pos front]
    simp only [List.cons_append, List.append_assoc]
    rw [List.dropWhile_cons, if_neg (by decide)]
    exact quotedName_bare (fun char listed => (bare.2 char listed).2.1) follows

variable {elements : List (List Char)}

theorem splitWithin_plain {parts : List (List Char)} (nonempty : parts ≠ [])
    (plain : ∀ part ∈ parts, PlainPart part) {fuel : Nat}
    (read : splitWithin fuel ([','].intercalate parts) = some elements) :
    ∀ element ∈ elements, ∃ part ∈ parts,
      element = readPart part ∨ element = (readPart part).map asciiLower := by
  induction parts generalizing fuel elements with
  | nil => exact absurd rfl nonempty
  | cons part rest ih =>
    cases fuel with
    | zero => cases read
    | succ fuel =>
      cases rest with
      | nil =>
        obtain ⟨name, after, named, ended, same⟩ := @identifier_plain part [] (plain part
          List.mem_cons_self) ⟨[], [], rfl, by simp, .inl rfl⟩
        rw [List.append_nil] at named
        rw [List.intercalate_singleton] at read
        simp only [splitWithin, named, ended, List.dropWhile_nil, Option.some.injEq] at read
        subst read
        intro element listed
        cases List.mem_singleton.mp listed
        exact ⟨part, List.mem_cons_self, same⟩
      | cons next rest =>
        obtain ⟨name, after, named, ended, same⟩ := @identifier_plain part
          (',' :: [','].intercalate (next :: rest)) (plain part List.mem_cons_self)
          ⟨[], _, rfl, by simp, .inr ⟨_, rfl⟩⟩
        rw [List.intercalate_cons_cons, List.append_assoc] at read
        simp only [splitWithin, List.singleton_append, named, ended] at read
        rw [List.dropWhile_cons, if_neg (by decide)] at read
        simp only [Option.map_eq_some_iff] at read
        obtain ⟨later, tail, rfl⟩ := read
        intro element listed
        rcases List.mem_cons.mp listed with rfl | there
        · exact ⟨part, List.mem_cons_self, same⟩
        · obtain ⟨other, member, spelled⟩ := ih (by simp)
            (fun other member => plain other (List.mem_cons_of_mem _ member)) tail element there
          exact ⟨other, List.mem_cons_of_mem _ member, spelled⟩

theorem splitIdentifiers_expected (plain : ∀ part ∈ text.splitOn ',', PlainPart part)
    (default : ∀ name ∈ (text.splitOn ',').map readPart, Expected name)
    (read : splitIdentifiers text = some elements) :
    ∀ element ∈ elements, Expected element := by
  unfold splitIdentifiers at read
  split at read
  · cases read
    simp
  · rw [← @List.intercalate_splitOn _ text _ _ ','] at read
    intro element listed
    obtain ⟨part, member, spelled⟩ := splitWithin_plain (List.splitOn_ne_nil _ _) plain read element
      listed
    have expected := default _ (List.mem_map_of_mem member)
    rcases spelled with rfl | rfl
    · exact expected
    · rcases expected with same | same
      · rw [same]
        exact .inl (by decide)
      · rw [same]
        exact .inr (by decide)

end Lists

section Scan

variable {moved : List SettingMoved} {setting : SettingMoved}

theorem mem_addSetting {found : Option SettingMoved}
    (reported : setting ∈ moved ∨ found = some setting) :
    setting ∈ addSetting moved found := by
  unfold addSetting
  rcases reported with held | rfl
  · split
    · exact held
    · split
      · exact held
      · exact List.mem_append_left _ held
  · dsimp only
    split
    · rename_i contained
      exact List.contains_iff_mem.mp contained
    · exact List.mem_append_right _ (List.mem_singleton_self _)

theorem movedFrom_keeps {tokens : List Token} {initial : Bool} (held : setting ∈ moved) :
    setting ∈ movedFrom initial moved tokens := by
  induction tokens generalizing initial moved with
  | nil => exact held
  | cons token rest ih => exact ih (mem_addSetting (.inl held))

theorem movedFrom_at {before rest : List Token} {token : Token} {initial : Bool}
    {moved : List SettingMoved} {setting : SettingMoved}
    (found : movedAt (initial && before.isEmpty) token rest = some setting) :
    setting ∈ movedFrom initial moved (before ++ token :: rest) := by
  induction before generalizing initial moved with
  | nil =>
    rw [List.nil_append, movedFrom]
    rw [List.isEmpty_nil, Bool.and_true] at found
    exact movedFrom_keeps (mem_addSetting (.inr found))
  | cons first before ih =>
    rw [List.cons_append, movedFrom]
    apply ih
    simpa using found

theorem off_plain {value : List Char} (off : readsOff value = true) :
    isOnValue value = false ∧ BareWord value := by
  have spelled : value.map asciiLower ∈ offWords := List.contains_iff_mem.mp off
  have never : (offWords.all fun word => ["on", "true", "t", "yes", "y", "1"].all fun on =>
      word != on.toList.map asciiLower) = true := rfl
  have plain : (offWords.all fun word => !word.isEmpty && word.all fun char =>
      char != ',' && char != '"' && !isWhitespace char) = true := rfl
  have plainWord := List.all_eq_true.mp plain _ spelled
  simp only [Bool.and_eq_true, Bool.not_eq_true', List.isEmpty_eq_false_iff, List.all_eq_true,
    bne_iff_ne] at plainWord
  constructor
  · rw [Bool.eq_false_iff]
    intro on
    obtain ⟨word, listed, same⟩ := List.any_eq_true.mp on
    have other := List.all_eq_true.mp (List.all_eq_true.mp never _ spelled) word listed
    exact bne_iff_ne.mp other (by simpa [equalIgnoringCase] using same)
  · refine ⟨fun empty => plainWord.1 (by simp [empty]), ?_⟩
    intro char listed
    have lower := plainWord.2 _ (List.mem_map_of_mem listed)
    -- Lower-casing only touches letters, and none of these is one.
    have kept : ¬ ('A' ≤ char ∧ char ≤ 'Z') → asciiLower char = char := by
      intro outside
      rw [asciiLower, if_neg outside]
    refine ⟨?_, ?_, ?_⟩
    · rintro rfl
      exact lower.1.1 (kept (by decide))
    · rintro rfl
      exact lower.1.2 (kept (by decide))
    · rw [Bool.eq_false_iff]
      intro blank
      by_cases letter : 'A' ≤ char ∧ char ≤ 'Z'
      · have low : 65 ≤ char.toNat := UInt32.le_iff_toNat_le.mp (Char.le_def.mp letter.1)
        have high : char.toNat ≤ 90 := UInt32.le_iff_toNat_le.mp (Char.le_def.mp letter.2)
        simp only [isWhitespace, Bool.or_eq_true, Bool.and_eq_true, decide_eq_true_eq,
          beq_iff_eq] at blank
        omega
      · rw [kept letter, blank] at lower
        cases lower.2

end Scan

section Reports

variable {item : SetItem} {values : List (List Char)}

theorem item_values {rest : List Token} (read : settingValues (item.tokens ++ rest) = some values) :
    ∃ own later, settingValues item.tokens = some own ∧ settingValues rest = some later ∧
      values = own ++ later := by
  cases item with
  | otherString more value => simp [SetItem.tokens, settingValues] at read
  | signed text => simp [SetItem.tokens, settingValues] at read
  | word spelled =>
    cases spelled with
    | unicode letter text name =>
      simp [SetItem.tokens, Spelling.tokens, settingValues] at read
    | bare text =>
      simp only [SetItem.tokens, Spelling.tokens, List.singleton_append, settingValues,
        Option.bind_eq_bind, Option.bind_eq_some_iff, Option.pure_def,
        Option.some.injEq] at read ⊢
      obtain ⟨later, tail, rfl⟩ := read
      exact ⟨_, later, ⟨[], rfl, rfl⟩, tail, rfl⟩
    | quoted text =>
      simp only [SetItem.tokens, Spelling.tokens, List.singleton_append, settingValues,
        Option.bind_eq_bind, Option.bind_eq_some_iff, Option.pure_def,
        Option.some.injEq] at read ⊢
      obtain ⟨later, tail, rfl⟩ := read
      exact ⟨_, later, ⟨[], rfl, rfl⟩, tail, rfl⟩
  | literal text more value reads =>
    rw [SetItem.tokens, settingValues_literals] at read
    obtain ⟨later, tail, rfl⟩ := Option.map_eq_some_iff.mp read
    refine ⟨_, later, ?_, tail, rfl⟩
    rw [SetItem.tokens, ← List.append_nil (List.map _ _), settingValues_literals]
    simp [settingValues]
  | number text =>
    simp only [SetItem.tokens, List.singleton_append, settingValues, Option.bind_eq_bind,
      Option.bind_eq_some_iff, Option.pure_def, Option.some.injEq] at read ⊢
    obtain ⟨later, tail, rfl⟩ := read
    exact ⟨_, later, ⟨[], rfl, rfl⟩, tail, rfl⟩

theorem item_expected (plain : item.Plain) {own : List (List Char)}
    (read : settingValues item.tokens = some own) (default : ∀ name ∈ own, Expected name) :
    Expected item.value := by
  cases item with
  | otherString more value => simp [SetItem.tokens, settingValues] at read
  | signed text => simp [SetItem.tokens, settingValues] at read
  | word spelled =>
    cases spelled with
    | unicode letter text name =>
      simp [SetItem.tokens, Spelling.tokens, settingValues] at read
    | bare text =>
      cases read
      exact default _ List.mem_cons_self
    | quoted text =>
      cases read
      exact default _ List.mem_cons_self
  | number text =>
    cases read
    exact default _ List.mem_cons_self
  | literal text more value reads =>
    obtain ⟨bare, rfl⟩ : BareWord text ∧ more = [] := plain
    rw [SetItem.tokens, List.map_singleton, settingValues_literal,
      List.splitOn_eq_singleton fun listed => (bare.2 _ listed).1 rfl] at read
    cases read
    have expected := default _ List.mem_cons_self
    rw [readPart_bare bare] at expected
    have whole : value = [text].flatten := reads fun part listed => by
      rw [List.mem_singleton.mp listed]
      exact no_backslash_expected expected
    rw [SetItem.value, whole, List.flatten_singleton]
    exact expected

theorem items_expected {items : List SetItem} (plain : ∀ item ∈ items, item.Plain)
    (read : settingValues (listTokens items) = some values)
    (default : ∀ name ∈ values, Expected name) : ∀ item ∈ items, Expected item.value := by
  induction items generalizing values with
  | nil => simp
  | cons first rest ih =>
    have split : ∃ own later, settingValues first.tokens = some own ∧
        settingValues (listTokens rest) = some later ∧ values = own ++ later := by
      cases rest with
      | nil =>
        rw [listTokens, ← List.append_nil first.tokens] at read
        exact item_values read
      | cons next rest =>
        simp only [listTokens] at read
        obtain ⟨own, later, here, there, rfl⟩ := item_values read
        exact ⟨own, later, here, there, rfl⟩
    obtain ⟨own, later, here, there, rfl⟩ := split
    intro item listed
    rcases List.mem_cons.mp listed with rfl | tail
    · exact item_expected (plain _ List.mem_cons_self) here
        fun name member => default name (List.mem_append_left _ member)
    · exact ih (fun other member => plain other (List.mem_cons_of_mem _ member)) there
        (fun name member => default name (List.mem_append_right _ member)) item tail

variable {value : List Char} {text : List Char}

theorem literal_not_on (reads : '\\' ∉ text → value = text) (off : readsOff value = true) :
    isOn (settingValues [.singleQuoted text]) = false := by
  rw [settingValues_literal, Bool.eq_false_iff]
  intro on
  by_cases escaped : '\\' ∈ text
  · obtain ⟨name, listed, inside⟩ := backslash_read escaped
    unfold isOn at on
    split at on
    · rename_i only same
      rw [Option.some.inj same] at listed
      cases List.mem_singleton.mp listed
      obtain ⟨word, member, equal⟩ := List.any_eq_true.mp on
      have lower : '\\' ∈ word.toList.map asciiLower := by
        have mapped : asciiLower '\\' ∈ name.map asciiLower := List.mem_map_of_mem inside
        rw [beq_iff_eq.mp equal] at mapped
        exact mapped
      have none : (["on", "true", "t", "yes", "y", "1"].all fun word =>
          !(word.toList.map asciiLower).contains '\\') = true := rfl
      have absent := List.all_eq_true.mp none word member
      rw [List.contains_iff_mem.mpr lower] at absent
      cases absent
    · cases on
  · rw [reads escaped] at off
    obtain ⟨notOn, bare⟩ := off_plain off
    rw [List.splitOn_eq_singleton fun listed => (bare.2 _ listed).1 rfl, List.map_singleton,
      readPart_bare bare] at on
    rw [isOn, notOn] at on
    cases on

theorem item_not_on (off : readsOff item.value = true) :
    isOn (settingValues item.tokens) = false := by
  cases item with
  | otherString more value => rfl
  | signed text => rfl
  | word spelled =>
    cases spelled with
    | bare text => exact (off_plain off).1
    | quoted text => exact (off_plain off).1
    | unicode letter text name => rfl
  | number text => exact (off_plain off).1
  | literal text more value reads =>
    cases more with
    | nil =>
      refine literal_not_on (fun unescaped => ?_) off
      simpa [SetItem.value] using reads (by simpa using unescaped)
    | cons next more =>
      -- Each literal of a continued one is a value to the scan, and one is on at most.
      rw [SetItem.tokens, ← List.append_nil (List.map _ _), settingValues_literals]
      have first := List.length_pos_of_ne_nil (List.splitOn_ne_nil ',' text)
      have second := List.length_pos_of_ne_nil (List.splitOn_ne_nil ',' next)
      simp only [settingValues, Option.map_some, List.append_nil, List.flatMap_cons]
      unfold isOn
      split
      · rename_i only same
        have length := congrArg List.length (Option.some.inj same)
        simp only [List.length_append, List.length_map, List.length_singleton] at length
        omega
      · rfl

def Moving (assigned : Assigned) : SettingMoved → Prop
  | .searchPath => ∃ elements, assigned = .path elements ∧ ∃ element ∈ elements, ¬ Expected element
  | .escapeStrings => assigned = .conforming false

variable {assigned : Assigned} {setting : SettingMoved}

theorem Server.assign_moved {server : Server} (moved : (server.assign assigned).Moved setting) :
    server.Moved setting ∨ Moving assigned setting := by
  cases assigned with
  | path elements =>
    cases setting with
    | searchPath => exact .inr ⟨elements, rfl, moved⟩
    | escapeStrings => exact .inl moved
  | conforming on =>
    cases setting with
    | searchPath => exact .inl moved
    | escapeStrings =>
      have off : on = false := moved
      exact .inr (by rw [Moving, off])

variable {name : List Char}

theorem equal_known {known : List Char} (same : equalIgnoringCase name known = true)
    (other : List Char) : equalIgnoringCase name other = equalIgnoringCase known other := by
  simp only [equalIgnoringCase, beq_iff_eq] at same ⊢
  rw [same]

variable {values : Option (List (List Char))}

theorem movedBy_path (path : equalIgnoringCase name searchPath = true)
    (other : isDefaultSearchPath values ≠ true) :
    movedBy name values = some .searchPath := by
  change (if equalIgnoringCase name searchPath = true then _ else _) = _
  rw [if_pos path, if_neg other]

theorem movedBy_strings (strings : equalIgnoringCase name standardConformingStrings = true)
    (off : isOn values = false) : movedBy name values = some .escapeStrings := by
  have path : ¬ equalIgnoringCase name searchPath = true := by
    rw [equal_known strings]
    decide
  change (if equalIgnoringCase name searchPath = true then _ else
    if equalIgnoringCase name standardConformingStrings = true then _ else _) = _
  rw [if_neg path, if_pos strings, off, if_neg (by decide)]

theorem assignBool_moving (ran : assignBool value = some assigned)
    (moving : Moving assigned setting) :
    setting = .escapeStrings ∧ readsOff value = true := by
  unfold assignBool at ran
  cases setting with
  | searchPath =>
    obtain ⟨elements, rfl, _⟩ := moving
    split at ran
    · cases ran
    · split at ran <;> cases ran
  | escapeStrings =>
    refine ⟨rfl, ?_⟩
    rw [Moving] at moving
    subst moving
    split at ran
    · assumption
    · split at ran <;> cases ran

theorem list_moved {name : List Char} {items : List SetItem} {assigned : Assigned}
    {setting : SettingMoved}
    (plain : equalIgnoringCase name searchPath = true → ∀ item ∈ items, item.Plain)
    (ran : assignList name (items.map SetItem.value) = some assigned)
    (moving : Moving assigned setting) :
    movedBy name (settingValues (listTokens items)) = some setting := by
  unfold assignList at ran
  split at ran
  · rename_i path
    cases ran
    cases setting with
    | escapeStrings => cases moving
    | searchPath =>
      obtain ⟨elements, same, element, listed, unexpected⟩ := moving
      cases same
      obtain ⟨item, member, rfl⟩ := List.mem_map.mp listed
      apply movedBy_path path
      intro default
      cases read : settingValues (listTokens items) with
      | none =>
        rw [read] at default
        cases default
      | some values =>
        rw [read, isDefault_iff] at default
        exact unexpected (items_expected (plain path) read default.1 item member)
  · split at ran
    · rename_i strings
      split at ran
      · rename_i value only
        obtain ⟨rfl, off⟩ := assignBool_moving ran moving
        obtain ⟨item, rfl, rfl⟩ : ∃ item, items = [item] ∧ item.value = value := by
          match items, only with
          | [item], only => exact ⟨item, rfl, (List.cons.inj only).1⟩
        exact movedBy_strings strings (item_not_on off)
      · cases ran
    · cases ran

variable {head : Token} {tail : List Token}

theorem head_values {value : StringExpr} (plain : PlainValue value)
    (tokens : value.tokens = head :: tail) (expression : ∀ text, head ≠ .singleQuoted text) :
    settingValues [head] = none ∨ settingValues [head] = some [] ∨
      ∃ name, settingValues [head] = some [name] ∧ name.map asciiLower ∉ defaultWords := by
  rw [PlainValue, tokens] at plain
  cases head with
  | singleQuoted text => exact absurd rfl (expression text)
  | word text quoted =>
    refine .inr (.inr ⟨_, rfl, ?_⟩)
    split
    · exact plain
    · simpa [List.map_map, Function.comp_def, asciiLower_idem] using plain
  | number text => exact .inr (.inr ⟨_, rfl, plain⟩)
  | comma => exact .inr (.inl rfl)
  | rParen => exact .inr (.inl rfl)
  | semiColon => exact .inr (.inl rfl)
  | eq => exact .inl rfl
  | lParen => exact .inl rfl
  | whitespace => exact .inl rfl
  | other => exact .inl rfl

theorem not_default_of_unlisted (shape : values = none ∨ values = some [] ∨
      ∃ name, values = some [name] ∧ name.map asciiLower ∉ defaultWords) :
    isDefaultSearchPath values ≠ true ∧ isOn values = false := by
  rcases shape with rfl | rfl | ⟨name, rfl, unlisted⟩
  · exact ⟨by decide, rfl⟩
  · exact ⟨by decide, rfl⟩
  · constructor
    · intro default
      cases List.mem_singleton.mp (isDefault_iff.mp default).2
      exact unlisted (by decide)
    · rw [isOn, Bool.eq_false_iff]
      intro on
      obtain ⟨word, member, same⟩ := List.any_eq_true.mp on
      have lower : word.toList.map asciiLower ∉ defaultWords := by
        rw [← beq_iff_eq.mp same]
        exact unlisted
      have listed : (["on", "true", "t", "yes", "y", "1"].all fun word =>
          defaultWords.contains (word.toList.map asciiLower)) = true := rfl
      exact lower (List.contains_iff_mem.mp (List.all_eq_true.mp listed word member))

theorem literal_expected (reads : '\\' ∉ text → value = text)
    (plain : ∀ part ∈ text.splitOn ',', PlainPart part)
    (default : isDefaultSearchPath (settingValues [.singleQuoted text]) = true)
    {elements : List (List Char)} (read : splitIdentifiers value = some elements) :
    ∀ element ∈ elements, Expected element := by
  rw [settingValues_literal, isDefault_iff] at default
  have unescaped : '\\' ∉ text := by
    intro escaped
    obtain ⟨name, listed, inside⟩ := backslash_read escaped
    exact no_backslash_expected (default.1 name listed) inside
  rw [reads unescaped] at read
  exact splitIdentifiers_expected plain default.1 read

theorem assignText_moving (ran : assignText name value = some assigned)
    (moving : Moving assigned setting) :
    (equalIgnoringCase name searchPath = true ∧ setting = .searchPath ∧ ∃ elements,
      splitIdentifiers value = some elements ∧ ∃ element ∈ elements, ¬ Expected element) ∨
    (equalIgnoringCase name standardConformingStrings = true ∧ setting = .escapeStrings ∧
      readsOff value = true) := by
  unfold assignText at ran
  split at ran
  · rename_i path
    obtain ⟨elements, read, rfl⟩ := Option.map_eq_some_iff.mp ran
    cases setting with
    | escapeStrings => cases moving
    | searchPath =>
      obtain ⟨same, equal, unexpected⟩ := moving
      cases equal
      exact .inl ⟨path, rfl, elements, read, unexpected⟩
  · split at ran
    · rename_i strings
      obtain ⟨rfl, off⟩ := assignBool_moving ran moving
      exact .inr ⟨strings, rfl, off⟩
    · cases ran

theorem text_moved {value : StringExpr} (plain : PlainValue value)
    (tokens : value.tokens = head :: tail) (ran : assignText name value.value = some assigned)
    (moving : Moving assigned setting) :
    movedBy name (settingValues [head]) = some setting := by
  by_cases literal : ∃ text, head = .singleQuoted text
  · obtain ⟨text, rfl⟩ := literal
    have alone : tail = [] ∧ ∀ part ∈ text.splitOn ',', PlainPart part := by
      rw [PlainValue, tokens] at plain
      cases tail with
      | nil => exact ⟨rfl, plain⟩
      | cons next tail => exact plain.elim
    obtain ⟨rfl, parts⟩ := alone
    have reads := value.literal text tokens
    rcases assignText_moving ran moving with
      ⟨path, rfl, elements, read, element, listed, unexpected⟩ | ⟨strings, rfl, off⟩
    · exact movedBy_path path fun default =>
        unexpected (literal_expected reads parts default read element listed)
    · exact movedBy_strings strings (literal_not_on reads off)
  · obtain ⟨notDefault, notOn⟩ := not_default_of_unlisted
      (head_values plain tokens fun text same => literal ⟨text, same⟩)
    rcases assignText_moving ran moving with ⟨path, rfl, _⟩ | ⟨strings, rfl, _⟩
    · exact movedBy_path path notDefault
    · exact movedBy_strings strings notOn

end Reports

end Dbsec.SettingMoves
