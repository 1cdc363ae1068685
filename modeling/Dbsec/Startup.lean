import Dbsec.Settings
import Dbsec.Framing

/-! The settings a startup packet moves: what proxy/src/session.rs reads out of it against
what the server makes of it. The server side is specified from its documented behaviour:
the layout of the packet, the splitting of the options command line, getopt over its
switches, and the order in which assignments take effect. Settings other than the two that
are tracked are assigned without being checked. -/
namespace Dbsec.Startup
open Framing Settings

def ascii (text : String) : Bytes := text.toList.map fun char => UInt8.ofNat char.toNat

def lowerByte (byte : UInt8) : UInt8 := if 0x41 ≤ byte ∧ byte ≤ 0x5A then byte + 32 else byte

def equalIgnoringCase (left right : Bytes) : Bool := left.map lowerByte == right.map lowerByte

def searchPath : Bytes := ascii "search_path"

def standardConformingStrings : Bytes := ascii "standard_conforming_strings"

section Proxy

def startupHeaderLen : Nat := 8

def takeCstr (buffer : Bytes) : Option (Bytes × Bytes) :=
  match buffer.span (· ≠ 0) with
  | (_, []) => none
  | (text, _ :: rest) => some (text, rest)

def pairsWithin : Nat → Bytes → List (Bytes × Bytes)
  | 0, _ => []
  | fuel + 1, params =>
    match takeCstr params with
    | none => []
    | some (key, rest) =>
      if key.isEmpty then []
      else match takeCstr rest with
        | none => []
        | some (value, rest) => (key, value) :: pairsWithin fuel rest

structure StartupSettings where
  searchPathTrusted : Bool
  escapeStrings : Bool
  deriving DecidableEq

def StartupSettings.default : StartupSettings := ⟨true, false⟩

def mentions (options setting : Bytes) : Bool :=
  match options with
  | [] => equalIgnoringCase ([] : Bytes) setting
  | byte :: rest =>
    equalIgnoringCase ((byte :: rest).take setting.length) setting || mentions rest setting

def isOnBytes (value : Bytes) : Bool := (Text.decode value).any isOnValue

def noteParameter (settings : StartupSettings) (pair : Bytes × Bytes) : StartupSettings :=
  let (key, value) := pair
  if equalIgnoringCase key searchPath then
    { settings with
      searchPathTrusted := settings.searchPathTrusted && value == ascii "public" }
  else if equalIgnoringCase key standardConformingStrings then
    { settings with escapeStrings := settings.escapeStrings || !isOnBytes value }
  else if equalIgnoringCase key (ascii "options") then
    ⟨settings.searchPathTrusted && !mentions value searchPath,
      settings.escapeStrings || mentions value standardConformingStrings⟩
  else settings

def startupSettings (startup : Bytes) : StartupSettings :=
  if startup.length < startupHeaderLen then .default
  else
    let params := startup.drop startupHeaderLen
    (pairsWithin params.length params).foldl noteParameter .default

end Proxy

section Server

/-- The server's reading of the pairs: exactly one byte must be left where a name would
start, the terminator of a packet that is laid out as it should be. -/
def serverPairsWithin : Nat → Bytes → Option (List (Bytes × Bytes))
  | 0, _ => none
  | _ + 1, [] => none
  | _ + 1, [_] => some []
  | fuel + 1, params =>
    match takeCstr params with
    | none => none
    | some (key, rest) =>
      if key.isEmpty then none
      else match takeCstr rest with
        | none => none
        | some (value, rest) => (serverPairsWithin fuel rest).map ((key, value) :: ·)

def isSpace (byte : UInt8) : Bool := byte == 0x20 || (0x09 ≤ byte && byte ≤ 0x0D)

/-- One argument of a command line, and what follows it. A backslash takes the next
character as it is. -/
def splitArgument : Bytes → Bytes × Bytes
  | [] => ([], [])
  | [byte] => if byte = 0x5C then ([], []) else if isSpace byte then ([], [byte]) else ([byte], [])
  | byte :: next :: rest =>
    if byte = 0x5C then
      let (argument, after) := splitArgument rest
      (next :: argument, after)
    else if isSpace byte then ([], byte :: next :: rest)
    else
      let (argument, after) := splitArgument (next :: rest)
      (byte :: argument, after)

def splitOptionsWithin : Nat → Bytes → List Bytes
  | 0, _ => []
  | fuel + 1, line =>
    match line.dropWhile isSpace with
    | [] => []
    | start => (splitArgument start).1 :: splitOptionsWithin fuel (splitArgument start).2

def splitOptions (line : Bytes) : List Bytes := splitOptionsWithin line.length line

/-- The switches of a backend, and whether each takes an argument. -/
def takesArgument (letter : UInt8) : Option Bool :=
  if letter ∈ ascii "BCcDdfhkNprStvW-" then some true
  else if letter ∈ ascii "bEeFijlnOPsT" then some false
  else none

inductive Cluster where
  | flags
  | attached (letter : UInt8) (argument : Bytes)
  | next (letter : UInt8)
  | invalid

/-- The letters behind one dash, up to the first that takes an argument. -/
def readCluster : Bytes → Cluster
  | [] => .flags
  | letter :: rest =>
    match takesArgument letter with
    | none => .invalid
    | some false => readCluster rest
    | some true => if rest.isEmpty then .next letter else .attached letter rest

/-- `-c` and `--` assign a setting. -/
def assigning (letter : UInt8) (argument : Bytes) : List Bytes :=
  if letter = 0x63 ∨ letter = 0x2D then [argument] else []

/-- What the switches of a command line assign, as written; a line that getopt does not
take in full is refused. -/
def readSwitches : List Bytes → Option (List Bytes)
  | [] => some []
  | argument :: rest =>
    if argument = [0x2D, 0x2D] then if rest.isEmpty then some [] else none
    else match argument with
      | 0x2D :: letter :: letters =>
        match readCluster (letter :: letters) with
        | .invalid => none
        | .flags => readSwitches rest
        | .attached switch value => (readSwitches rest).map (assigning switch value ++ ·)
        | .next switch =>
          match rest with
          | [] => none
          | value :: rest => (readSwitches rest).map (assigning switch value ++ ·)
      | _ => none

def underscored (name : Bytes) : Bytes := name.map fun byte => if byte = 0x2D then 0x5F else byte

/-- `name=value`, with `-` in the name read as `_`. -/
def readAssignment (text : Bytes) : Option (Bytes × Bytes) :=
  match text.span (· ≠ 0x3D) with
  | (_, []) => none
  | (name, _ :: value) => some (underscored name, value)

def readOptions (line : Bytes) : Option (List (Bytes × Bytes)) :=
  (readSwitches (splitOptions line)).bind fun written => written.mapM readAssignment

/-- The command line is the last `options` of the packet, spelled exactly so. -/
def commandLine (pairs : List (Bytes × Bytes)) : Option Bytes :=
  ((pairs.filter fun pair => pair.1 == ascii "options").getLast?).map Prod.snd

def reserved (name : Bytes) : Bool :=
  [ascii "database", ascii "user", ascii "options", ascii "replication"].contains name ||
    name.take 5 == ascii "_pq_."

def optionAssigns (pairs : List (Bytes × Bytes)) : Option (List (Bytes × Bytes)) :=
  match commandLine pairs with
  | none => some []
  | some line => readOptions line

/-- Every assignment of a packet in the order it takes effect: the command line's first,
then the parameters. -/
def serverAssigns (startup : Bytes) : Option (List (Bytes × Bytes)) := do
  let params := startup.drop startupHeaderLen
  let pairs ← serverPairsWithin params.length params
  let line ← optionAssigns pairs
  return line ++ pairs.filter fun pair => !reserved pair.1

def finalValue (setting : Bytes) (assigned : List (Bytes × Bytes)) : Option Bytes :=
  ((assigned.filter fun pair => equalIgnoringCase pair.1 setting).getLast?).map Prod.snd

def isAbbreviation (value word : Bytes) (atLeast : Nat) : Bool :=
  decide (atLeast ≤ value.length) && equalIgnoringCase value (word.take value.length)

/-- A boolean setting's value: an abbreviation of one of the words, or a digit. -/
def parseBool (value : Bytes) : Option Bool :=
  if isAbbreviation value (ascii "true") 1 || isAbbreviation value (ascii "yes") 1 ||
      isAbbreviation value (ascii "on") 2 || value == ascii "1" then some true
  else if isAbbreviation value (ascii "false") 1 || isAbbreviation value (ascii "no") 1 ||
      isAbbreviation value (ascii "off") 2 || value == ascii "0" then some false
  else none

end Server

section Reading

theorem pairs_agree {fuel : Nat} {params : Bytes} {pairs : List (Bytes × Bytes)}
    (accepted : serverPairsWithin fuel params = some pairs) : pairsWithin fuel params = pairs := by
  induction fuel generalizing params pairs with
  | zero => cases accepted
  | succ fuel ih =>
    match params, accepted with
    | [], accepted => cases accepted
    | [byte], accepted =>
      cases accepted
      by_cases terminator : byte = 0
      · simp [pairsWithin, takeCstr, terminator]
      · simp [pairsWithin, takeCstr, terminator]
    | first :: second :: rest, accepted =>
      simp only [serverPairsWithin] at accepted
      simp only [pairsWithin]
      cases name : takeCstr (first :: second :: rest) with
      | none => simp [name] at accepted
      | some taken =>
        simp only [name] at accepted ⊢
        by_cases empty : taken.1.isEmpty
        · simp [empty] at accepted
        · simp only [empty, Bool.false_eq_true, if_false] at accepted ⊢
          cases text : takeCstr taken.2 with
          | none => simp [text] at accepted
          | some value =>
            simp only [text, Option.map_eq_some_iff] at accepted ⊢
            obtain ⟨later, read, rfl⟩ := accepted
            rw [ih read]

def trustsPath (pair : Bytes × Bytes) : Bool :=
  if equalIgnoringCase pair.1 searchPath then pair.2 == ascii "public"
  else if equalIgnoringCase pair.1 standardConformingStrings then true
  else if equalIgnoringCase pair.1 (ascii "options") then !mentions pair.2 searchPath
  else true

def escapes (pair : Bytes × Bytes) : Bool :=
  if equalIgnoringCase pair.1 searchPath then false
  else if equalIgnoringCase pair.1 standardConformingStrings then !isOnBytes pair.2
  else if equalIgnoringCase pair.1 (ascii "options") then mentions pair.2 standardConformingStrings
  else false

theorem noteParameter_eq (settings : StartupSettings) (pair : Bytes × Bytes) :
    noteParameter settings pair =
      ⟨settings.searchPathTrusted && trustsPath pair, settings.escapeStrings || escapes pair⟩ := by
  simp only [noteParameter, trustsPath, escapes]
  split
  · simp
  · split
    · simp
    · split <;> simp

theorem fold_noteParameter (pairs : List (Bytes × Bytes)) (settings : StartupSettings) :
    pairs.foldl noteParameter settings =
      ⟨settings.searchPathTrusted && pairs.all trustsPath,
        settings.escapeStrings || pairs.any escapes⟩ := by
  induction pairs generalizing settings with
  | nil => simp
  | cons pair rest ih =>
    rw [List.foldl_cons, ih, noteParameter_eq]
    simp [Bool.and_assoc, Bool.or_assoc]

def SpelledIn (setting text : Bytes) : Prop :=
  ∃ before name after, text = before ++ (name ++ after) ∧ equalIgnoringCase name setting = true

variable {left right : Bytes}

theorem equalIgnoringCase_iff :
    equalIgnoringCase left right = true ↔ left.map lowerByte = right.map lowerByte := by
  simp [equalIgnoringCase]

theorem length_of_equalIgnoringCase (same : equalIgnoringCase left right = true) :
    left.length = right.length := by
  simpa using congrArg List.length (equalIgnoringCase_iff.mp same)

theorem mentions_iff {text setting : Bytes} :
    mentions text setting = true ↔ SpelledIn setting text := by
  induction text with
  | nil =>
    simp only [mentions, SpelledIn]
    constructor
    · intro same
      exact ⟨[], [], [], rfl, same⟩
    · rintro ⟨before, name, after, split, same⟩
      obtain ⟨_, rest⟩ := List.append_eq_nil_iff.mp split.symm
      rw [(List.append_eq_nil_iff.mp rest).1] at same
      exact same
  | cons byte rest ih =>
    rw [mentions, Bool.or_eq_true, ih]
    constructor
    · rintro (here | ⟨before, name, after, rfl, same⟩)
      · exact ⟨[], _, (byte :: rest).drop setting.length, (List.take_append_drop _ _).symm, here⟩
      · exact ⟨byte :: before, name, after, rfl, same⟩
    · rintro ⟨before, name, after, split, same⟩
      cases before with
      | nil =>
        left
        rw [split, List.nil_append, List.take_left' (length_of_equalIgnoringCase same)]
        exact same
      | cons first before =>
        right
        cases split
        exact ⟨before, name, after, rfl, same⟩

end Reading

section Effect

theorem finalValue_append (setting : Bytes) (first second : List (Bytes × Bytes)) :
    finalValue setting (first ++ second) =
      (finalValue setting second).or (finalValue setting first) := by
  simp only [finalValue, List.filter_append, List.getLast?_append]
  cases (second.filter fun pair => equalIgnoringCase pair.1 setting).getLast? <;> simp

variable {setting value : Bytes} {assigned : List (Bytes × Bytes)}

theorem finalValue_mem (final : finalValue setting assigned = some value) :
    ∃ name, (name, value) ∈ assigned ∧ equalIgnoringCase name setting = true := by
  simp only [finalValue, Option.map_eq_some_iff] at final
  obtain ⟨⟨name, _⟩, last, rfl⟩ := final
  have listed := List.mem_filter.mp (List.mem_of_getLast? last)
  exact ⟨name, listed.1, listed.2⟩

theorem finalValue_none_iff : finalValue setting assigned = none ↔
      ∀ pair ∈ assigned, equalIgnoringCase pair.1 setting = false := by
  simp only [finalValue, Option.map_eq_none_iff, List.getLast?_eq_none_iff, List.filter_eq_nil_iff,
    Bool.not_eq_true]

theorem not_reserved {name : Bytes}
    (tracked : setting = searchPath ∨ setting = standardConformingStrings)
    (same : equalIgnoringCase name setting = true) : reserved name = false := by
  have lower := equalIgnoringCase_iff.mp same
  rw [Bool.eq_false_iff]
  intro kept
  simp only [reserved, Bool.or_eq_true, List.contains_iff_mem, List.mem_cons, List.not_mem_nil,
    or_false, beq_iff_eq] at kept
  rcases kept with (rfl | rfl | rfl | rfl) | start
  · rcases tracked with rfl | rfl <;> exact absurd lower (by decide)
  · rcases tracked with rfl | rfl <;> exact absurd lower (by decide)
  · rcases tracked with rfl | rfl <;> exact absurd lower (by decide)
  · rcases tracked with rfl | rfl <;> exact absurd lower (by decide)
  · have five := congrArg (List.map lowerByte) start
    rw [List.map_take, lower] at five
    rcases tracked with rfl | rfl <;> exact absurd five (by decide)

theorem finalValue_parameters (tracked : setting = searchPath ∨ setting = standardConformingStrings)
    (pairs : List (Bytes × Bytes)) :
    finalValue setting (pairs.filter fun pair => !reserved pair.1) = finalValue setting pairs := by
  simp only [finalValue, List.filter_filter]
  congr 2
  apply List.filter_congr
  intro pair _
  cases same : equalIgnoringCase pair.1 setting with
  | false => rfl
  | true => simp [not_reserved tracked same]

def offSpellings : List Bytes :=
  ["f", "fa", "fal", "fals", "false", "n", "no", "of", "off", "0"].map ascii

theorem abbreviation_lower {word : Bytes} {atLeast : Nat}
    (short : isAbbreviation value word atLeast = true) :
    atLeast ≤ value.length ∧ value.length ≤ word.length ∧
      value.map lowerByte = (word.take value.length).map lowerByte := by
  simp only [isAbbreviation, Bool.and_eq_true, decide_eq_true_eq] at short
  have lower := equalIgnoringCase_iff.mp short.2
  have sized := congrArg List.length lower
  simp only [List.length_map, List.length_take] at sized
  exact ⟨short.1, by omega, lower⟩

theorem off_lower (off : parseBool value = some false) : value.map lowerByte ∈ offSpellings := by
  unfold parseBool at off
  split at off
  · cases off
  · split at off
    · rename_i spelled
      simp only [Bool.or_eq_true, beq_iff_eq] at spelled
      rcases spelled with ((word | word) | word) | rfl
      · obtain ⟨low, high, lower⟩ := abbreviation_lower word
        rw [lower]
        generalize value.length = size at low high
        have bounded : size ≤ 5 := high
        interval_cases size <;> decide
      · obtain ⟨low, high, lower⟩ := abbreviation_lower word
        rw [lower]
        generalize value.length = size at low high
        have bounded : size ≤ 2 := high
        interval_cases size <;> decide
      · obtain ⟨low, high, lower⟩ := abbreviation_lower word
        rw [lower]
        generalize value.length = size at low high
        have bounded : size ≤ 3 := high
        interval_cases size <;> decide
      · decide
    · cases off

def charsOf (bytes : Bytes) : List Char := bytes.map fun byte => Char.ofNat byte.toNat

theorem charsOf_ascii {bytes : Bytes} (small : ∀ byte ∈ bytes, byte.toNat < 128) :
    (charsOf bytes).all Text.isAscii = true ∧ Text.encode (charsOf bytes) = bytes ∧
      (charsOf bytes).map Text.asciiLower = charsOf (bytes.map lowerByte) := by
  have each : ∀ place : Fin 128, Text.isAscii (Char.ofNat place.val) = true ∧
      UInt8.ofNat (Char.ofNat place.val).toNat = UInt8.ofNat place.val ∧
      Text.asciiLower (Char.ofNat place.val) =
        Char.ofNat (lowerByte (UInt8.ofNat place.val)).toNat := by decide +kernel
  induction bytes with
  | nil => exact ⟨rfl, rfl, rfl⟩
  | cons byte rest ih =>
    obtain ⟨plain, same, lower⟩ := each ⟨byte.toNat, small byte List.mem_cons_self⟩
    obtain ⟨plainRest, sameRest, lowerRest⟩ :=
      ih fun other listed => small other (List.mem_cons_of_mem _ listed)
    rw [UInt8.ofNat_toNat] at same lower
    refine ⟨?_, ?_, ?_⟩
    · simp only [charsOf, List.map_cons, List.all_cons, Bool.and_eq_true] at plainRest ⊢
      exact ⟨plain, plainRest⟩
    · simp only [charsOf, Text.encode, List.map_cons, List.flatMap_cons] at sameRest ⊢
      rw [Text.encodeChar_ascii plain, sameRest, same]
      rfl
    · simp only [charsOf, List.map_cons] at lowerRest ⊢
      rw [lower, lowerRest]

theorem off_not_on (off : parseBool value = some false) : isOnBytes value = false := by
  have lower := off_lower off
  have small : ∀ byte ∈ value, byte.toNat < 128 := by
    intro byte listed
    have ascii : ∀ spelling ∈ offSpellings, ∀ byte ∈ spelling, byte.toNat < 128 := by decide +kernel
    have here := ascii _ lower _ (List.mem_map_of_mem listed)
    unfold lowerByte at here
    split at here
    · rename_i upper
      have top := UInt8.le_iff_toNat_le.mp upper.2
      have bound : (0x5A : UInt8).toNat = 90 := rfl
      omega
    · exact here
  obtain ⟨plain, encoded, lowered⟩ := charsOf_ascii small
  have read : Text.decode value = some (charsOf value) := by
    have back := Text.decode_encode_of_ascii plain
    rwa [encoded] at back
  have never : ∀ spelling ∈ offSpellings, ∀ word ∈ ["on", "true", "t", "yes", "y", "1"],
      charsOf spelling ≠ word.toList.map Text.asciiLower := by decide +kernel
  rw [isOnBytes, read, Option.any_some, Bool.eq_false_iff]
  intro on
  obtain ⟨word, listed, same⟩ := List.any_eq_true.mp on
  have equal : (charsOf value).map Text.asciiLower = word.toList.map Text.asciiLower := by
    simpa [Text.equalIgnoringCase] using same
  rw [lowered] at equal
  exact never _ lower word listed equal

end Effect

section PlainLines

variable {line : Bytes}

theorem splitArgument_plain (plain : 0x5C ∉ line) :
    line = (splitArgument line).1 ++ (splitArgument line).2 := by
  induction line using splitArgument.induct with
  | case1 => rfl
  | case2 => simp at plain
  | case3 byte _ space => simp [splitArgument, *]
  | case4 byte _ space => simp [splitArgument, *]
  | case5 => simp at plain
  | case6 byte next rest escaped space => simp [splitArgument, escaped, space]
  | case7 byte next rest escaped space argument after read ih =>
    have later := ih fun listed => plain (List.mem_cons_of_mem _ listed)
    simp only [splitArgument, escaped, space, if_false, Bool.false_eq_true, List.cons_append]
    rw [← later]

variable {argument : Bytes}

theorem argument_infix {fuel : Nat} (plain : 0x5C ∉ line)
    (listed : argument ∈ splitOptionsWithin fuel line) : argument <:+: line := by
  induction fuel generalizing line with
  | zero => cases listed
  | succ fuel ih =>
    have kept : line.dropWhile isSpace <:+ line := List.dropWhile_suffix _
    unfold splitOptionsWithin at listed
    split at listed
    · cases listed
    · have bare : 0x5C ∉ line.dropWhile isSpace := fun inside => plain (kept.subset inside)
      have cut := splitArgument_plain bare
      rcases List.mem_cons.mp listed with rfl | later
      · exact .trans ⟨[], _, cut.symm⟩ kept.isInfix
      · have tail : (splitArgument (line.dropWhile isSpace)).2 <:+ line.dropWhile isSpace :=
          ⟨_, cut.symm⟩
        have inner := ih (fun inside => bare (tail.subset inside)) later
        exact inner.trans (tail.isInfix.trans kept.isInfix)

variable {switch : UInt8}

theorem readCluster_attached {letters : Bytes}
    (read : readCluster letters = .attached switch argument) : argument <:+ letters := by
  induction letters with
  | nil => cases read
  | cons letter rest ih =>
    unfold readCluster at read
    split at read
    · cases read
    · exact (ih read).trans (List.suffix_cons _ _)
    · split at read
      · cases read
      · cases read
        exact List.suffix_cons _ _

theorem mem_assigning {written : Bytes} (listed : written ∈ assigning switch argument) :
    written = argument := by
  unfold assigning at listed
  split at listed
  · exact List.mem_singleton.mp listed
  · cases listed

theorem readSwitches_suffix {arguments written : List Bytes}
    (read : readSwitches arguments = some written) :
    ∀ text ∈ written, ∃ argument ∈ arguments, text <:+ argument := by
  induction arguments using readSwitches.induct generalizing written with
  | case1 =>
    cases read
    simp
  | case2 => simp_all [readSwitches]
  | case3 => simp_all [readSwitches]
  | case4 => simp_all [readSwitches]
  | case5 rest letter letters cluster notEnd ih =>
    simp only [readSwitches, notEnd, if_false, cluster] at read
    intro text listed
    obtain ⟨argument, member, ending⟩ := ih read text listed
    exact ⟨argument, List.mem_cons_of_mem _ member, ending⟩
  | case6 rest letter letters switch value cluster notEnd ih =>
    simp only [readSwitches, notEnd, if_false, cluster, Option.map_eq_some_iff] at read
    obtain ⟨later, tail, rfl⟩ := read
    intro text listed
    rcases List.mem_append.mp listed with here | there
    · rw [mem_assigning here]
      exact ⟨_, List.mem_cons_self, (readCluster_attached cluster).trans (List.suffix_cons _ _)⟩
    · obtain ⟨argument, member, ending⟩ := ih tail text there
      exact ⟨argument, List.mem_cons_of_mem _ member, ending⟩
  | case7 => simp_all [readSwitches]
  | case8 letter letters switch cluster value rest notEnd ih =>
    simp only [readSwitches, notEnd, if_false, cluster, Option.map_eq_some_iff] at read
    obtain ⟨later, tail, rfl⟩ := read
    intro text listed
    rcases List.mem_append.mp listed with here | there
    · rw [mem_assigning here]
      exact ⟨value, by simp, List.suffix_rfl⟩
    · obtain ⟨argument, member, ending⟩ := ih tail text there
      exact ⟨argument, by simp [member], ending⟩
  | case9 => simp_all [readSwitches]

theorem spelled_of_plain {setting : Bytes} (plain : 0x5C ∉ line) {assigned : List (Bytes × Bytes)}
    (read : readOptions line = some assigned) {name value : Bytes}
    (listed : (name, value) ∈ assigned) (same : equalIgnoringCase name setting = true) :
    ∃ written, underscored written = name ∧ written <:+: line ∧
      (0x2D ∉ written → SpelledIn setting line) := by
  simp only [readOptions, Option.bind_eq_some_iff] at read
  obtain ⟨texts, switched, each⟩ := read
  obtain ⟨text, member, assigns⟩ : ∃ text ∈ texts, readAssignment text = some (name, value) := by
    clear switched
    induction texts generalizing assigned with
    | nil =>
      cases each
      cases listed
    | cons text rest ih =>
      simp only [List.mapM_cons, Option.bind_eq_bind, Option.bind_eq_some_iff, Option.pure_def,
        Option.some.injEq] at each
      obtain ⟨first, here, later, there, rfl⟩ := each
      rcases List.mem_cons.mp listed with rfl | tail
      · exact ⟨text, List.mem_cons_self, here⟩
      · obtain ⟨other, member, assigns⟩ := ih tail there
        exact ⟨other, List.mem_cons_of_mem _ member, assigns⟩
  obtain ⟨argument, passed, ending⟩ := readSwitches_suffix switched text member
  -- Without a backslash an argument stands in the line as it is.
  have inside := argument_infix plain passed
  unfold readAssignment at assigns
  split at assigns
  · cases assigns
  · rename_i written equals _ cut
    cases assigns
    have start : written <+: text := by
      rw [List.span_eq_takeWhile_dropWhile] at cut
      rw [← (Prod.mk.inj cut).1]
      exact List.takeWhile_prefix _
    have stands : written <:+: line := start.isInfix.trans (ending.isInfix.trans inside)
    refine ⟨written, rfl, stands, ?_⟩
    intro undashed
    have kept : underscored written = written := by
      have each : ∀ byte ∈ written, (if byte = 0x2D then (0x5F : UInt8) else byte) = byte := by
        intro byte listed
        rw [if_neg]
        rintro rfl
        exact undashed listed
      exact (List.map_congr_left each).trans (List.map_id' written)
    obtain ⟨before, after, split⟩ := stands
    exact ⟨before, written, after, by rw [← split, List.append_assoc], kept ▸ same⟩

end PlainLines

section Missed

/-- The setting is a parameter of the packet, or its name stands in an options value. -/
def SpelledOut (setting : Bytes) (pairs : List (Bytes × Bytes)) : Prop :=
  (∃ pair ∈ pairs, equalIgnoringCase pair.1 setting = true) ∨
    ∃ pair ∈ pairs, equalIgnoringCase pair.1 (ascii "options") = true ∧ SpelledIn setting pair.2

def serverPairs (startup : Bytes) : Option (List (Bytes × Bytes)) :=
  serverPairsWithin (startup.drop startupHeaderLen).length (startup.drop startupHeaderLen)

/-- Whatever the command line of the packet moves is spelled out in the packet. -/
def MovesSpelledOut (startup : Bytes) : Prop :=
  ∀ pairs line, serverPairs startup = some pairs → optionAssigns pairs = some line →
    (∀ value, finalValue searchPath line = some value → value ≠ ascii "public" →
      SpelledOut searchPath pairs) ∧
    (∀ value, finalValue standardConformingStrings line = some value →
      parseBool value = some false → SpelledOut standardConformingStrings pairs)

/-- What the server is left with is never worse than what the proxy took note of. -/
def NeverMissed (startup : Bytes) : Prop :=
  ∀ assigned, serverAssigns startup = some assigned →
    (∀ value, finalValue searchPath assigned = some value → value ≠ ascii "public" →
      (startupSettings startup).searchPathTrusted = false) ∧
    (∀ value, finalValue standardConformingStrings assigned = some value →
      parseBool value = some false → (startupSettings startup).escapeStrings = true)

variable {startup : Bytes}

theorem startupSettings_of_pairs {pairs : List (Bytes × Bytes)}
    (accepted : serverPairs startup = some pairs) :
    startupSettings startup = ⟨pairs.all trustsPath, pairs.any escapes⟩ := by
  have long : ¬ startup.length < startupHeaderLen := by
    intro short
    rw [serverPairs, List.drop_eq_nil_of_le short.le] at accepted
    cases accepted
  simp only [startupSettings, if_neg long, pairs_agree accepted, fold_noteParameter]
  simp [StartupSettings.default]

theorem serverAssigns_iff {assigned : List (Bytes × Bytes)} :
    serverAssigns startup = some assigned ↔
      ∃ pairs line, serverPairs startup = some pairs ∧ optionAssigns pairs = some line ∧
        assigned = line ++ pairs.filter fun pair => !reserved pair.1 := by
  simp only [serverAssigns, Option.bind_eq_bind, Option.bind_eq_some_iff, Option.pure_def,
    Option.some.injEq]
  constructor
  · rintro ⟨pairs, accepted, line, read, rfl⟩
    exact ⟨pairs, line, accepted, read, rfl⟩
  · rintro ⟨pairs, line, accepted, read, rfl⟩
    exact ⟨pairs, accepted, line, read, rfl⟩

/-- One setting, abstracted from how its moves and reports are told: a parameter that moves
it reports it, so does an options value that names it, and nothing else does. -/
structure Tracks (setting : Bytes) (moves : Bytes → Prop) (reports : Bytes × Bytes → Bool) :
    Prop where
  tracked : setting = searchPath ∨ setting = standardConformingStrings
  parameter : ∀ pair, equalIgnoringCase pair.1 setting = true → moves pair.2 → reports pair = true
  named : ∀ pair, equalIgnoringCase pair.1 (ascii "options") = true → SpelledIn setting pair.2 →
    reports pair = true
  silent : ∀ pair, equalIgnoringCase pair.1 setting = false →
    (equalIgnoringCase pair.1 (ascii "options") = true → ¬ SpelledIn setting pair.2) →
    reports pair = false

theorem reported_iff {setting : Bytes} {moves : Bytes → Prop} {reports : Bytes × Bytes → Bool}
    (tracks : Tracks setting moves reports) (pairs line : List (Bytes × Bytes)) :
    (∀ value, finalValue setting (line ++ pairs.filter fun pair => !reserved pair.1) = some value →
        moves value → pairs.any reports = true) ↔
      (∀ value, finalValue setting line = some value → moves value → SpelledOut setting pairs) := by
  rw [finalValue_append, finalValue_parameters tracks.tracked]
  constructor
  · intro reported value final moved
    by_contra unspelled
    rw [SpelledOut, not_or] at unspelled
    have none : finalValue setting pairs = none := by
      rw [finalValue_none_iff]
      intro pair listed
      rw [Bool.eq_false_iff]
      exact fun same => unspelled.1 ⟨pair, listed, same⟩
    obtain ⟨pair, listed, noted⟩ := List.any_eq_true.mp
      (reported value (by rw [none, final]; rfl) moved)
    have silent := tracks.silent pair (finalValue_none_iff.mp none pair listed)
      fun options spelled => unspelled.2 ⟨pair, listed, options, spelled⟩
    rw [silent] at noted
    cases noted
  · intro spelled value final moved
    rw [List.any_eq_true]
    cases direct : finalValue setting pairs with
    | some last =>
      rw [direct] at final
      cases final
      obtain ⟨name, listed, same⟩ := finalValue_mem direct
      exact ⟨_, listed, tracks.parameter _ same moved⟩
    | none =>
      rw [direct] at final
      rcases spelled value final moved with ⟨pair, listed, same⟩ | ⟨pair, listed, options, inside⟩
      · rw [finalValue_none_iff.mp direct pair listed] at same
        cases same
      · exact ⟨pair, listed, tracks.named pair options inside⟩

theorem different_names {name left right : Bytes} (same : equalIgnoringCase name left = true)
    (apart : left.map lowerByte ≠ right.map lowerByte) : equalIgnoringCase name right = false := by
  rw [Bool.eq_false_iff]
  intro also
  exact apart ((equalIgnoringCase_iff.mp same).symm.trans (equalIgnoringCase_iff.mp also))

theorem tracks_searchPath :
    Tracks searchPath (· ≠ ascii "public") fun pair => !trustsPath pair where
  tracked := .inl rfl
  parameter := by
    intro pair same moved
    simpa [trustsPath, same] using moved
  named := by
    intro pair options spelled
    simp [trustsPath, @different_names _ _ searchPath options (by decide),
      @different_names _ _ standardConformingStrings options (by decide), options,
      mentions_iff.mpr spelled]
  silent := by
    intro pair other unspelled
    simp only [trustsPath, other, Bool.false_eq_true, if_false]
    split
    · rfl
    · split
      · rename_i options
        simpa [Bool.not_eq_true] using mt mentions_iff.mp (unspelled options)
      · rfl

theorem tracks_escapes :
    Tracks standardConformingStrings (fun value => parseBool value = some false) escapes where
  tracked := .inr rfl
  parameter := by
    intro pair same moved
    simp [escapes, @different_names _ _ searchPath same (by decide), same, off_not_on moved]
  named := by
    intro pair options spelled
    simp [escapes, @different_names _ _ searchPath options (by decide),
      @different_names _ _ standardConformingStrings options (by decide), options,
      mentions_iff.mpr spelled]
  silent := by
    intro pair other unspelled
    simp only [escapes, other, Bool.false_eq_true, if_false]
    split
    · rfl
    · split
      · rename_i options
        simpa [Bool.not_eq_true] using mt mentions_iff.mp (unspelled options)
      · rfl

/-- A packet's moves are all noticed exactly when its command line spells out the name of
each setting it moves, or the setting is a parameter as well. -/
theorem startup_never_missed_iff (startup : Bytes) :
    NeverMissed startup ↔ MovesSpelledOut startup := by
  have untrusted : ∀ pairs : List (Bytes × Bytes),
      pairs.all trustsPath = false ↔ (pairs.any fun pair => !trustsPath pair) = true := by
    intro pairs
    rw [← List.not_all_eq_any_not, Bool.not_eq_true']
  constructor
  · intro noticed pairs line accepted read
    have reported := noticed _ (serverAssigns_iff.mpr ⟨pairs, line, accepted, read, rfl⟩)
    rw [startupSettings_of_pairs accepted] at reported
    constructor
    · refine (reported_iff tracks_searchPath pairs line).mp fun value final moved => ?_
      exact (untrusted pairs).mp (reported.1 value final moved)
    · exact (reported_iff tracks_escapes pairs line).mp reported.2
  · intro spelled assigned takes
    obtain ⟨pairs, line, accepted, read, rfl⟩ := serverAssigns_iff.mp takes
    obtain ⟨path, strings⟩ := spelled pairs line accepted read
    rw [startupSettings_of_pairs accepted]
    constructor
    · intro value final moved
      exact (untrusted pairs).mpr
        ((reported_iff tracks_searchPath pairs line).mpr path value final moved)
    · exact (reported_iff tracks_escapes pairs line).mpr strings

def withOptions (line : String) : Bytes :=
  List.replicate 8 0 ++ (ascii "options" ++ (0 :: (ascii line ++ [0, 0])))

/-- A backslash takes the next character as it is and a dash stands for an underscore, so
neither name stands in its packet. -/
theorem respelled_names_missed :
    serverAssigns (withOptions "-c sea\\rch_path=evil") = some [(searchPath, ascii "evil")] ∧
      (startupSettings (withOptions "-c sea\\rch_path=evil")).searchPathTrusted = true ∧
      serverAssigns (withOptions "--standard-conforming-strings=off") =
        some [(standardConformingStrings, ascii "off")] ∧
      (startupSettings (withOptions "--standard-conforming-strings=off")).escapeStrings =
        false := by
  decide +kernel

end Missed

end Dbsec.Startup
