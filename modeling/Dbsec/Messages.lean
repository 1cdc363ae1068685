import Dbsec.ReadPath

/-! The codecs of pgwire/src/lib.rs for DataRow, Parse and Bind bodies. Counts and
lengths are signed on the wire: a length of -1 is NULL and any other negative length is
refused, but a negative count runs its loop no times, so the body is read as if the
section were empty and encodes to something else. -/
namespace Dbsec.Messages
open Framing RowKeys ArrayParam BoundParams ReadPath

/-- A Parse body, the parameter types as they arrived. -/
structure ParseMessage where
  statement : Bytes
  query : Bytes
  paramTypes : Bytes
  deriving DecidableEq

def beShort (value : Int) : Bytes := be16 (value % 2 ^ 16).toNat

def takeCstr : Bytes → Option (Bytes × Bytes)
  | [] => none
  | byte :: rest =>
    if byte = 0 then some ([], rest)
    else do
      let (text, rest) ← takeCstr rest
      return (byte :: text, rest)

def takeFormats : Nat → Bytes → Option (List Int × Bytes)
  | 0, raw => some ([], raw)
  | count + 1, raw => do
      let (code, raw) ← takeI16 raw
      let (codes, raw) ← takeFormats count raw
      return (code :: codes, raw)

def encodeFormats (codes : List Int) : Bytes := codes.flatMap beShort

def wellFormed {Value : Type} : Option Value → Except RowError Value
  | some value => .ok value
  | none => .error .malformedBackend

def readParse (body : Bytes) : Option ParseMessage := do
  let (statement, body) ← takeCstr body
  let (query, body) ← takeCstr body
  return ⟨statement, query, body⟩

def parseParse (body : Bytes) : Except RowError ParseMessage := wellFormed (readParse body)

def encodeParse (message : ParseMessage) : Bytes :=
  message.statement ++ 0 :: (message.query ++ 0 :: message.paramTypes)

/-- The `for _ in 0..count` loops: nothing is read for a negative count. -/
def readBind (body : Bytes) : Option BindMessage := do
  let (portal, body) ← takeCstr body
  let (statement, body) ← takeCstr body
  let (formatCount, body) ← takeI16 body
  let (paramFormats, body) ← takeFormats formatCount.toNat body
  let (paramCount, body) ← takeI16 body
  let (params, body) ← takeElements paramCount.toNat body
  return ⟨portal, statement, paramFormats, params, body⟩

def parseBind (body : Bytes) : Except RowError BindMessage := wellFormed (readBind body)

def bindBody (message : BindMessage) : Bytes :=
  message.portal ++ 0 :: (message.statement ++ 0 :: (be16 message.paramFormats.length ++
    (encodeFormats message.paramFormats ++ (be16 message.params.length ++
      (encodeElements message.params ++ message.resultFormats)))))

def encodeBind (message : BindMessage) : Except RowError Bytes :=
  if message.paramFormats.length < 2 ^ 15 ∧ message.params.length < 2 ^ 15 ∧
      ∀ value ∈ message.params.flatMap Option.toList, value.length < 2 ^ 31 then
    .ok (bindBody message)
  else .error .wireFieldOverflow

section Readers

theorem beShort_length (value : Int) : (beShort value).length = 2 := rfl

variable {count : Nat}

theorem beShort_natCast (few : count < 2 ^ 16) : beShort count = be16 count := by
  have same : ((count : Int) % 2 ^ 16).toNat = count := by omega
  rw [beShort, same]

variable {value : Int}

theorem signedBe_beShort (low : -2 ^ 15 ≤ value) (high : value < 2 ^ 15) :
    signedBe (beShort value) = value := by
  have bytes : ∀ n : Nat, (UInt8.ofNat n).toNat = n % 256 := fun n => UInt8.toNat_ofNat'
  simp only [signedBe, beShort, be16, List.foldl_cons, List.foldl_nil, List.length_cons,
    List.length_nil, bytes]
  omega

theorem takeI16_beShort (low : -2 ^ 15 ≤ value) (high : value < 2 ^ 15) (rest : Bytes) :
    takeI16 (beShort value ++ rest) = some (value, rest) := by
  have long : ¬ (beShort value ++ rest).length < 2 := by
    rw [List.length_append, beShort_length]
    omega
  rw [takeI16, if_neg long, List.take_left' (beShort_length value),
    List.drop_left' (beShort_length value), signedBe_beShort low high]

variable {rest : Bytes} {raw : Bytes}

theorem takeI16_exact (read : takeI16 raw = some (value, rest)) :
    raw = beShort value ++ rest ∧ -2 ^ 15 ≤ value ∧ value < 2 ^ 15 := by
  unfold takeI16 at read
  split at read
  · cases read
  · rename_i long
    match raw, long, read with
    | high :: low :: tail, _, read =>
      cases read
      have highByte := high.toNat_lt
      have lowByte := low.toNat_lt
      have value : signedBe [high, low] =
          if high.toNat * 256 + low.toNat < 32768 then ((high.toNat * 256 + low.toNat : Nat) : Int)
          else ((high.toNat * 256 + low.toNat : Nat) : Int) - 65536 := by
        simp only [signedBe, List.foldl_cons, List.foldl_nil, List.length_cons, List.length_nil]
        split_ifs <;> omega
      have spelled : beShort (signedBe [high, low]) = [high, low] := by
        rw [value]
        simp only [beShort, be16, List.cons.injEq, and_true, ← UInt8.toNat_inj,
          UInt8.toNat_ofNat']
        split_ifs <;> omega
      refine ⟨?_, ?_⟩
      · change _ = beShort (signedBe [high, low]) ++ tail
        rw [spelled]
        rfl
      · change -2 ^ 15 ≤ signedBe [high, low] ∧ signedBe [high, low] < 2 ^ 15
        rw [value]
        split_ifs <;> omega
    | [], long, _ => exact absurd Nat.zero_lt_two long
    | [_], long, _ => exact absurd Nat.one_lt_two long

theorem takeInt_exact (read : takeInt raw = some (value, rest)) :
    raw = beInt value ++ rest ∧ -2 ^ 31 ≤ value ∧ value < 2 ^ 31 := by
  unfold takeInt at read
  split at read
  · cases read
  · rename_i long
    match raw, long, read with
    | first :: second :: third :: fourth :: tail, _, read =>
      cases read
      have firstByte := first.toNat_lt
      have secondByte := second.toNat_lt
      have thirdByte := third.toNat_lt
      have fourthByte := fourth.toNat_lt
      obtain ⟨word, is⟩ : ∃ word : Nat, word = ((first.toNat * 256 + second.toNat) * 256 +
          third.toNat) * 256 + fourth.toNat := ⟨_, rfl⟩
      have value : signedBe [first, second, third, fourth] =
          if word < 2147483648 then (word : Int) else (word : Int) - 4294967296 := by
        simp only [signedBe, List.foldl_cons, List.foldl_nil, List.length_cons, List.length_nil]
        split_ifs <;> omega
      have spelled : beInt (signedBe [first, second, third, fourth]) =
          [first, second, third, fourth] := by
        rw [value]
        have unsigned : ((if word < 2147483648 then (word : Int) else (word : Int) - 4294967296) %
            2 ^ 32).toNat = word := by
          split_ifs <;> omega
        rw [beInt, unsigned]
        simp only [be32, List.cons.injEq, and_true, ← UInt8.toNat_inj, UInt8.toNat_ofNat']
        omega
      refine ⟨?_, ?_⟩
      · change _ = beInt (signedBe [first, second, third, fourth]) ++ tail
        rw [spelled]
        rfl
      · change -2 ^ 31 ≤ signedBe [first, second, third, fourth] ∧
          signedBe [first, second, third, fourth] < 2 ^ 31
        rw [value]
        split_ifs <;> omega
    | [], long, _ => exact absurd (by simp) long
    | [_], long, _ => exact absurd (by simp) long
    | [_, _], long, _ => exact absurd (by simp) long
    | [_, _, _], long, _ => exact absurd (by simp) long

variable {text : Bytes}

theorem takeCstr_encode (clean : 0 ∉ text) (rest : Bytes) :
    takeCstr (text ++ 0 :: rest) = some (text, rest) := by
  induction text with
  | nil => rfl
  | cons byte text ih =>
    rw [List.mem_cons, not_or] at clean
    have visible : ¬ byte = 0 := fun zero => clean.1 zero.symm
    rw [List.cons_append, takeCstr, if_neg visible, ih clean.2]
    rfl

theorem takeCstr_exact (read : takeCstr raw = some (text, rest)) :
    raw = text ++ 0 :: rest ∧ 0 ∉ text := by
  induction raw generalizing text with
  | nil => cases read
  | cons byte raw ih =>
    rw [takeCstr] at read
    by_cases zero : byte = 0
    · rw [if_pos zero] at read
      cases read
      subst zero
      exact ⟨rfl, List.not_mem_nil⟩
    · rw [if_neg zero] at read
      obtain ⟨⟨head, tail⟩, later, done⟩ := Option.bind_eq_some_iff.mp read
      cases done
      obtain ⟨split, clean⟩ := ih later
      constructor
      · rw [split]
        rfl
      · rw [List.mem_cons, not_or]
        exact ⟨fun same => zero same.symm, clean⟩

theorem encodeFormats_cons (code : Int) (codes : List Int) :
    encodeFormats (code :: codes) = beShort code ++ encodeFormats codes := rfl

variable {codes : List Int}

theorem takeFormats_encode (short : ∀ code ∈ codes, -2 ^ 15 ≤ code ∧ code < 2 ^ 15) (rest : Bytes) :
    takeFormats codes.length (encodeFormats codes ++ rest) = some (codes, rest) := by
  induction codes with
  | nil => rfl
  | cons code codes ih =>
    have bounds := short code List.mem_cons_self
    have later := ih fun other listed => short other (List.mem_cons_of_mem _ listed)
    rw [encodeFormats_cons, List.append_assoc, List.length_cons, takeFormats,
      takeI16_beShort bounds.1 bounds.2]
    simp only [Option.bind_eq_bind, Option.bind_some, later]
    rfl

theorem takeFormats_exact (read : takeFormats count raw = some (codes, rest)) :
    raw = encodeFormats codes ++ rest ∧ codes.length = count ∧
      ∀ code ∈ codes, -2 ^ 15 ≤ code ∧ code < 2 ^ 15 := by
  induction count generalizing raw codes with
  | zero =>
    cases read
    exact ⟨rfl, rfl, nofun⟩
  | succ count ih =>
    obtain ⟨⟨code, middle⟩, first, read⟩ := Option.bind_eq_some_iff.mp read
    obtain ⟨⟨others, last⟩, later, done⟩ := Option.bind_eq_some_iff.mp read
    cases done
    obtain ⟨head, bounds⟩ := takeI16_exact first
    obtain ⟨tail, counted, short⟩ := ih later
    refine ⟨?_, by rw [List.length_cons, counted], ?_⟩
    · rw [head, tail, encodeFormats_cons, List.append_assoc]
    · intro held listed
      rcases List.mem_cons.mp listed with rfl | listed
      · exact bounds
      · exact short held listed

theorem takeElements_exact {elements : List (Option Bytes)}
    (read : takeElements count raw = some (elements, rest)) :
    raw = encodeElements elements ++ rest ∧ elements.length = count ∧
      ∀ token ∈ elements.flatMap Option.toList, token.length < 2 ^ 31 := by
  induction count generalizing raw elements with
  | zero =>
    cases read
    exact ⟨rfl, rfl, nofun⟩
  | succ count ih =>
    obtain ⟨⟨size, middle⟩, first, read⟩ := Option.bind_eq_some_iff.mp read
    obtain ⟨head, low, high⟩ := takeInt_exact first
    dsimp only at read
    split at read
    · rename_i null
      obtain ⟨⟨others, last⟩, later, done⟩ := Option.bind_eq_some_iff.mp read
      cases done
      obtain ⟨tail, counted, short⟩ := ih later
      refine ⟨?_, by rw [List.length_cons, counted], short⟩
      rw [head, tail, null, encodeElements, List.append_assoc]
    · split at read
      · cases read
      · rename_i notNull inside
        obtain ⟨⟨others, last⟩, later, done⟩ := Option.bind_eq_some_iff.mp read
        cases done
        obtain ⟨tail, counted, short⟩ := ih later
        rw [not_or] at inside
        have taken : (middle.take size.toNat).length = size.toNat := by
          rw [List.length_take]
          omega
        have sized : ((middle.take size.toNat).length : Int) = size := by omega
        refine ⟨?_, by rw [List.length_cons, counted], ?_⟩
        · rw [encodeElements, sized, List.append_assoc, List.append_assoc, ← tail,
            List.take_append_drop, head]
        · intro token listed
          rcases List.mem_append.mp listed with here | later
          · cases List.mem_singleton.mp here
            omega
          · exact short token later

end Readers

theorem parseParse_encode (message : ParseMessage) (named : 0 ∉ message.statement)
    (queried : 0 ∉ message.query) : parseParse (encodeParse message) = .ok message := by
  simp only [parseParse, readParse, encodeParse, takeCstr_encode named, takeCstr_encode queried,
    Option.bind_eq_bind, Option.bind_some, Option.pure_def, wellFormed]

theorem wellFormed_ok {Value : Type} {read : Option Value} {value : Value}
    (accepted : wellFormed read = .ok value) : read = some value := by
  cases read with
  | none => cases accepted
  | some held => cases accepted; rfl

variable {body : Bytes}

theorem parseParse_exact {message : ParseMessage} (read : parseParse body = .ok message) :
    encodeParse message = body := by
  obtain ⟨⟨statement, middle⟩, first, read⟩ := Option.bind_eq_some_iff.mp (wellFormed_ok read)
  obtain ⟨⟨query, rest⟩, second, done⟩ := Option.bind_eq_some_iff.mp read
  cases done
  rw [(takeCstr_exact first).1, (takeCstr_exact second).1]
  rfl

/-- The count fields of a Bind body, formats first, as the reader takes them. -/
def bindCounts (body : Bytes) : Option (Int × Int) := do
  let (_, body) ← takeCstr body
  let (_, body) ← takeCstr body
  let (formatCount, body) ← takeI16 body
  let (_, body) ← takeFormats formatCount.toNat body
  let (paramCount, _) ← takeI16 body
  return (formatCount, paramCount)

/-- The body a Bind was read from, its two counts apart. -/
structure ReadFrom (body : Bytes) (message : BindMessage) (formatCount paramCount : Int) :
    Prop where
  counts : bindCounts body = some (formatCount, paramCount)
  named : 0 ∉ message.portal ∧ 0 ∉ message.statement
  formatRange : -2 ^ 15 ≤ formatCount ∧ formatCount < 2 ^ 15
  paramRange : -2 ^ 15 ≤ paramCount ∧ paramCount < 2 ^ 15
  formats : message.paramFormats.length = formatCount.toNat
  params : message.params.length = paramCount.toNat
  codes : ∀ code ∈ message.paramFormats, -2 ^ 15 ≤ code ∧ code < 2 ^ 15
  short : ∀ value ∈ message.params.flatMap Option.toList, value.length < 2 ^ 31
  spelled : body = message.portal ++ 0 :: (message.statement ++ 0 :: (beShort formatCount ++
    (encodeFormats message.paramFormats ++ (beShort paramCount ++
      (encodeElements message.params ++ message.resultFormats)))))

variable {message : BindMessage}

theorem readFrom_of_parse (read : parseBind body = .ok message) :
    ∃ formatCount paramCount, ReadFrom body message formatCount paramCount := by
  obtain ⟨⟨portal, afterPortal⟩, first, read⟩ := Option.bind_eq_some_iff.mp (wellFormed_ok read)
  obtain ⟨⟨statement, afterNames⟩, second, read⟩ := Option.bind_eq_some_iff.mp read
  obtain ⟨⟨formatCount, sections⟩, third, read⟩ := Option.bind_eq_some_iff.mp read
  obtain ⟨⟨formats, afterFormats⟩, fourth, read⟩ := Option.bind_eq_some_iff.mp read
  obtain ⟨⟨paramCount, values⟩, fifth, read⟩ := Option.bind_eq_some_iff.mp read
  obtain ⟨⟨params, results⟩, sixth, done⟩ := Option.bind_eq_some_iff.mp read
  cases done
  obtain ⟨portalSpelled, portalClean⟩ := takeCstr_exact first
  obtain ⟨statementSpelled, statementClean⟩ := takeCstr_exact second
  obtain ⟨countSpelled, formatRange⟩ := takeI16_exact third
  obtain ⟨formatsSpelled, formatsCounted, codes⟩ := takeFormats_exact fourth
  obtain ⟨paramSpelled, paramRange⟩ := takeI16_exact fifth
  obtain ⟨valuesSpelled, valuesCounted, short⟩ := takeElements_exact sixth
  refine ⟨formatCount, paramCount, ?_, ⟨portalClean, statementClean⟩, formatRange, paramRange,
    formatsCounted, valuesCounted, codes, short, ?_⟩
  · simp only [bindCounts, first, second, third, fourth, fifth, Option.bind_eq_bind,
      Option.bind_some, Option.pure_def]
  · rw [portalSpelled, statementSpelled, countSpelled, formatsSpelled, paramSpelled, valuesSpelled]

theorem encodeBind_ok (encoded : encodeBind message = .ok body) :
    body = bindBody message ∧ message.paramFormats.length < 2 ^ 15 ∧
      message.params.length < 2 ^ 15 ∧
      ∀ value ∈ message.params.flatMap Option.toList, value.length < 2 ^ 31 := by
  unfold encodeBind at encoded
  split at encoded
  · rename_i fits
    exact ⟨(Except.ok.inj encoded).symm, fits⟩
  · cases encoded

theorem parseBind_encode (portal : 0 ∉ message.portal) (statement : 0 ∉ message.statement)
    (codes : ∀ code ∈ message.paramFormats, -2 ^ 15 ≤ code ∧ code < 2 ^ 15)
    (encoded : encodeBind message = .ok body) : parseBind body = .ok message := by
  obtain ⟨spelled, fewFormats, fewParams, short⟩ := encodeBind_ok encoded
  simp only [spelled, parseBind, readBind, bindBody, takeCstr_encode portal,
    takeCstr_encode statement, takeI16_be16 fewFormats, Int.toNat_natCast, takeFormats_encode codes,
    takeI16_be16 fewParams, takeElements_encode short, Option.bind_eq_bind, Option.bind_some,
    Option.pure_def, wellFormed]

variable {value : Int}

theorem count_inj {count : Nat} {left right : Bytes} (few : count < 2 ^ 15) (low : -2 ^ 15 ≤ value)
    (high : value < 2 ^ 15) (same : be16 count ++ left = beShort value ++ right) :
    (count : Int) = value ∧ left = right := by
  have read := takeI16_be16 few left
  rw [same, takeI16_beShort low high] at read
  cases read
  exact ⟨rfl, rfl⟩

theorem count_spelled (high : value < 2 ^ 15) (positive : 0 ≤ value) :
    be16 value.toNat = beShort value := by
  have cast : beShort value = beShort (value.toNat : Int) := by rw [Int.toNat_of_nonneg positive]
  rw [cast, beShort_natCast (by omega)]

/-- A Bind that was read encodes to the bytes it was read from exactly when neither of
its counts is negative. -/
theorem encodeBind_exact_iff {formatCount paramCount : Int}
    (read : ReadFrom body message formatCount paramCount) :
    encodeBind message = .ok body ↔ 0 ≤ formatCount ∧ 0 ≤ paramCount := by
  constructor
  · intro encoded
    obtain ⟨same, fewFormats, fewParams, _⟩ := encodeBind_ok encoded
    rw [read.spelled, bindBody] at same
    have names := (List.cons.inj (List.append_cancel_left same)).2
    have sections := (List.cons.inj (List.append_cancel_left names)).2
    obtain ⟨formats, afterFormats⟩ :=
      count_inj fewFormats read.formatRange.1 read.formatRange.2 sections.symm
    obtain ⟨params, _⟩ := count_inj fewParams read.paramRange.1 read.paramRange.2
      (List.append_cancel_left afterFormats)
    omega
  · rintro ⟨formats, params⟩
    have fits : message.paramFormats.length < 2 ^ 15 ∧ message.params.length < 2 ^ 15 ∧
        ∀ value ∈ message.params.flatMap Option.toList, value.length < 2 ^ 31 := by
      have formatRange := read.formatRange
      have paramRange := read.paramRange
      rw [read.formats, read.params]
      exact ⟨by omega, by omega, read.short⟩
    rw [encodeBind, if_pos fits, read.spelled, bindBody, read.formats, read.params,
      count_spelled read.formatRange.2 formats, count_spelled read.paramRange.2 params]

def rowCount (body : Bytes) : Option Int := (takeI16 body).map Prod.fst

variable {values : List (Option Bytes)}

theorem parseDataRow_ok (read : parseDataRow body = .ok values) :
    ∃ count, rowCount body = some count ∧ -2 ^ 15 ≤ count ∧ count < 2 ^ 15 ∧
      values.length = count.toNat ∧ body = beShort count ++ encodeElements values ∧
      ∀ value ∈ values.flatMap Option.toList, value.length < 2 ^ 31 := by
  unfold parseDataRow at read
  split at read
  · cases read
  · rename_i count rest counted
    split at read
    · rename_i held taken
      cases read
      obtain ⟨spelled, low, high⟩ := takeI16_exact counted
      obtain ⟨listed, sized, short⟩ := takeElements_exact taken
      rw [List.append_nil] at listed
      exact ⟨count, by rw [rowCount, counted]; rfl, low, high,
        sized, by rw [spelled, listed], short⟩
    · cases read

theorem encodeDataRow_exact_iff (read : parseDataRow body = .ok values) :
    encodeDataRow values = .ok body ↔ ∀ count, rowCount body = some count → 0 ≤ count := by
  obtain ⟨count, counted, low, high, sized, spelled, short⟩ := parseDataRow_ok read
  have few : values.length < 2 ^ 15 := by omega
  have encoded : encodeDataRow values = .ok (be16 values.length ++ encodeElements values) := by
    rw [encodeDataRow, if_pos ⟨few, short⟩]
  rw [encoded, counted]
  constructor
  · rintro same _ ⟨⟩
    have bytes := Except.ok.inj same
    rw [spelled] at bytes
    have := (count_inj few low high bytes).1
    omega
  · intro positive
    rw [sized, count_spelled high (positive count rfl), spelled]

theorem int16_range (code : Int16) : -2 ^ 15 ≤ code.toInt ∧ code.toInt < 2 ^ 15 := by
  have low := code.le_toInt
  have high := code.toInt_lt
  constructor
  · exact low
  · exact high

/-- Encoding and then reading gives a row or a message back. Reading and then encoding
gives a Parse body back, and a DataRow or Bind body exactly when no count in it is
negative. -/
theorem codecs_inverse_iff (body : Bytes) :
    (∀ values, encodeDataRow values = .ok body → parseDataRow body = .ok values) ∧
    (∀ message : ParseMessage, 0 ∉ message.statement → 0 ∉ message.query →
      encodeParse message = body → parseParse body = .ok message) ∧
    (∀ portal statement (formats : List Int16) params resultFormats, 0 ∉ portal → 0 ∉ statement →
      encodeBind ⟨portal, statement, formats.map Int16.toInt, params, resultFormats⟩ = .ok body →
      parseBind body = .ok ⟨portal, statement, formats.map Int16.toInt, params, resultFormats⟩) ∧
    (∀ message, parseParse body = .ok message → encodeParse message = body) ∧
    (∀ values, parseDataRow body = .ok values →
      (encodeDataRow values = .ok body ↔ ∀ count, rowCount body = some count → 0 ≤ count)) ∧
    ∀ message, parseBind body = .ok message →
      (encodeBind message = .ok body ↔
        ∀ counts, bindCounts body = some counts → 0 ≤ counts.1 ∧ 0 ≤ counts.2) := by
  refine ⟨fun _ => encodeDataRow_ok, ?_, ?_, fun _ => parseParse_exact,
    fun _ => encodeDataRow_exact_iff, ?_⟩
  · rintro message named queried rfl
    exact parseParse_encode message named queried
  · intro portal statement formats params resultFormats portalClean statementClean encoded
    refine parseBind_encode portalClean statementClean ?_ encoded
    intro code listed
    obtain ⟨short, _, rfl⟩ := List.mem_map.mp listed
    exact int16_range short
  · intro message read
    obtain ⟨formatCount, paramCount, held⟩ := readFrom_of_parse read
    rw [encodeBind_exact_iff held, held.counts]
    simp

/-- A Bind whose parameter count has its top bit set is read without parameters, their
bytes counted to the result formats. -/
theorem parseBind_negative (values : Bytes) :
    parseBind ([0, 0, 0, 0] ++ (beShort (-2 ^ 15) ++ values)) = .ok ⟨[], [], [], [], values⟩ := by
  have noFormats : takeI16 (beShort 0 ++ (beShort (-2 ^ 15) ++ values)) =
      some (0, beShort (-2 ^ 15) ++ values) :=
    takeI16_beShort (by decide) (by decide) _
  have noParams : takeI16 (beShort (-2 ^ 15) ++ values) = some (-2 ^ 15, values) :=
    takeI16_beShort (by decide) (by decide) _
  have zero : beShort 0 = [0, 0] := by decide
  rw [zero] at noFormats
  have names : ([0, 0, 0, 0] : Bytes) = 0 :: 0 :: [0, 0] := rfl
  rw [parseBind, readBind, names]
  simp only [List.cons_append, takeCstr, if_true, Option.bind_eq_bind, Option.bind_some]
  rw [← List.cons_append, ← List.cons_append, noFormats]
  simp only [Option.bind_some, Int.toNat_zero, takeFormats, noParams]
  rfl

/-- A row whose count is -1 is read as the row without columns, and a Bind with 32768
parameters as one without any. -/
theorem negative_counts_dropped :
    parseDataRow [0xFF, 0xFF] = .ok [] ∧ encodeDataRow [] = .ok [0, 0] ∧
      ∀ values : List (Option Bytes), values.length = 2 ^ 15 →
        parseBind ([0, 0, 0, 0] ++ (be16 values.length ++ encodeElements values)) =
            .ok ⟨[], [], [], [], encodeElements values⟩ ∧
          encodeBind ⟨[], [], [], [], encodeElements values⟩ =
            .ok ([0, 0, 0, 0, 0, 0] ++ encodeElements values) := by
  refine ⟨by decide +kernel, by decide +kernel, ?_⟩
  intro values many
  have negative : be16 values.length = beShort (-2 ^ 15) := by rw [many]; decide
  constructor
  · rw [negative]
    exact parseBind_negative _
  · rw [encodeBind, if_pos ⟨Nat.two_pow_pos 15, Nat.two_pow_pos 15, nofun⟩]
    simp [bindBody, be16, encodeFormats, encodeElements]

end Dbsec.Messages
