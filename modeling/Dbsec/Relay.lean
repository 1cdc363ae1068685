import Dbsec.Messages
import Dbsec.RowRewrite

/-! One direction of a session: `relay` of proxy/src/session.rs with the frame header of
pgwire/src/lib.rs. The transform is any function with any state, the limit on a body is
asked anew for every frame, and a shutdown may be seen at any frame boundary. What is
written is what this direction writes, to its own peer and back to the sender. -/
namespace Dbsec.Relay
open Framing RowKeys ArrayParam Messages ReadPath RowRewrite

def frameHeaderLen : Nat := 5

inductive Action where
  | relay
  | replace (body : Bytes)
  | reply (frames : Bytes)
  | refuseAndClose (frames : Bytes)
  deriving DecidableEq

inductive PgwireError where
  | badMessageLength (length : Int)
  deriving DecidableEq

inductive RelayError (Failure : Type) where
  | pgwire (cause : PgwireError)
  | preAuthFrameTooLarge (msgType : UInt8) (bodyLen max : Nat)
  | frameTooLarge (msgType : UInt8) (cause : RowError)
  | transform (cause : Failure)
  | io
  deriving DecidableEq

def frameBodyLen (header : Block frameHeaderLen) : Except PgwireError (UInt8 × Nat) :=
  let length := signedBe (header.1.drop 1)
  if length < 4 ∨ (maxMessageLen : Int) < length then .error (.badMessageLength length)
  else .ok (header.1.headD 0, length.toNat - 4)

/-- What the peer sends, and whether its connection breaks or ends behind it. -/
structure Stream where
  bytes : Bytes
  broken : Bool

def Stream.readExact (stream : Stream) (count : Nat) : Option (Block count × Stream) :=
  if long : count ≤ stream.bytes.length then
    some (⟨stream.bytes.take count, by rw [List.length_take, Nat.min_eq_left long]⟩,
      { stream with bytes := stream.bytes.drop count })
  else none

structure Direction (State : Type) where
  input : Stream
  state : State
  forward : Bytes
  back : Bytes
  /-- How many frames have been dealt with. -/
  served : Nat

inductive Ending (Failure : Type) where
  | shutdown
  | closed
  | refused
  | failed (error : RelayError Failure)
  deriving DecidableEq

/-- What surrounds one direction: its transform, the limits it is given and the boundaries
at which it is told to stop. -/
structure Setting (State Failure : Type) where
  transform : State → UInt8 → Bytes → Except Failure Action × State
  maxBody : Nat → Nat
  shutdown : Nat → Bool

section Loop

variable {State Failure : Type}

def perform (direction : Direction State) (header body : Bytes) (msgType : UInt8) :
    Action → Direction State × Option (Ending Failure)
  | .relay => ({ direction with forward := direction.forward ++ header ++ body }, none)
  | .replace changed =>
    match encodeFrameHeader msgType changed.length with
    | .error cause => (direction, some (.failed (.frameTooLarge msgType cause)))
    | .ok fresh => ({ direction with forward := direction.forward ++ fresh ++ changed }, none)
  | .reply frames => ({ direction with back := direction.back ++ frames }, none)
  | .refuseAndClose frames =>
    ({ direction with forward := direction.forward ++ frames }, some .refused)

def turn (setting : Setting State Failure) (direction : Direction State) :
    Direction State × Option (Ending Failure) :=
  if setting.shutdown direction.served then (direction, some .shutdown)
  else
    match direction.input.readExact frameHeaderLen with
    | none => (direction, some (if direction.input.broken then .failed .io else .closed))
    | some (header, input) =>
      match frameBodyLen header with
      | .error cause => ({ direction with input }, some (.failed (.pgwire cause)))
      | .ok (msgType, bodyLen) =>
        let max := setting.maxBody direction.served
        if max < bodyLen then
          ({ direction with input }, some (.failed (.preAuthFrameTooLarge msgType bodyLen max)))
        else
          match input.readExact bodyLen with
          | none => ({ direction with input }, some (.failed .io))
          | some (body, input) =>
            let (decided, state) := setting.transform direction.state msgType body.1
            let direction := { direction with input, state, served := direction.served + 1 }
            match decided with
            | .error cause => (direction, some (.failed (.transform cause)))
            | .ok action => perform direction header.1 body.1 msgType action

def relay (setting : Setting State Failure) :
    Nat → Direction State → Direction State × Option (Ending Failure)
  | 0, direction => (direction, none)
  | turns + 1, direction =>
    match turn setting direction with
    | (next, none) => relay setting turns next
    | (next, some ending) => (next, some ending)

def opened (input : Stream) (state : State) : Direction State := ⟨input, state, [], [], 0⟩

end Loop

section Frames

structure Frame where
  msgType : UInt8
  body : Bytes

def Frame.header (frame : Frame) : Block frameHeaderLen :=
  ⟨frame.msgType :: beInt (frame.body.length + 4 : Nat), rfl⟩

def Frame.wire (frame : Frame) : Bytes := frame.header.1 ++ frame.body

def Frame.Announced (frame : Frame) : Prop :=
  frameBodyLen frame.header = .ok (frame.msgType, frame.body.length)

theorem announced_of_length {frame : Frame} (fits : frame.body.length + 4 ≤ maxMessageLen) :
    frame.Announced := by
  have small : maxMessageLen < 2 ^ 31 := by decide
  have field : signedBe (frame.header.1.drop 1) = (frame.body.length + 4 : Nat) :=
    signedBe_beInt (by omega) (by omega)
  have length : ((frame.body.length + 4 : Nat) : Int).toNat - 4 = frame.body.length := by omega
  rw [Frame.Announced, frameBodyLen, field, if_neg (by omega), length]
  rfl

theorem header_of_accepted {header : Block frameHeaderLen} {msgType : UInt8} {bodyLen : Nat}
    (accepted : frameBodyLen header = .ok (msgType, bodyLen)) :
    header.1 = msgType :: beInt (bodyLen + 4 : Nat) ∧ bodyLen + 4 ≤ maxMessageLen := by
  obtain ⟨bytes, size⟩ := header
  simp only [frameBodyLen] at accepted
  split at accepted
  · cases accepted
  · rename_i within
    cases accepted
    cases bytes with
    | nil => cases size
    | cons first field =>
      have four : field.length = 4 := Nat.succ.inj size
      have read : takeInt field = some (signedBe field, []) := by
        rw [takeInt, if_neg (by omega), List.take_of_length_le (by omega),
          List.drop_of_length_le (by omega)]
      obtain ⟨spelled, _, _⟩ := takeInt_exact read
      rw [List.append_nil] at spelled
      simp only [List.drop_succ_cons, List.drop_zero, List.headD_cons] at within ⊢
      have counted : (((signedBe field).toNat - 4 + 4 : Nat) : Int) = signedBe field := by omega
      rw [counted]
      exact ⟨congrArg _ spelled, by omega⟩

end Frames

section Runs

variable {State Failure : Type} {setting : Setting State Failure}

/-- A frame the loop takes up: no shutdown is seen before it, its header reads as its type
and length, and its body is within the limit asked for it. -/
structure Taken (setting : Setting State Failure) (served : Nat) (frame : Frame) : Prop where
  untold : setting.shutdown served = false
  announced : frame.Announced
  within : frame.body.length ≤ setting.maxBody served

/-- What has happened to the frames read so far: the state of the transform and what is
written forward and back. -/
inductive Carried (setting : Setting State Failure) (state : State) :
    List Frame → State → Bytes → Bytes → Prop
  | start : Carried setting state [] state [] []
  | relayed {frames : List Frame} {before after : State} {forward back : Bytes} {frame : Frame}
      (earlier : Carried setting state frames before forward back)
      (taken : Taken setting frames.length frame)
      (decided : setting.transform before frame.msgType frame.body = (.ok .relay, after)) :
      Carried setting state (frames ++ [frame]) after (forward ++ frame.wire) back
  | replaced {frames : List Frame} {before after : State} {forward back : Bytes}
      {frame fresh : Frame} (earlier : Carried setting state frames before forward back)
      (taken : Taken setting frames.length frame) (announced : fresh.Announced)
      (same : fresh.msgType = frame.msgType)
      (decided : setting.transform before frame.msgType frame.body =
        (.ok (.replace fresh.body), after)) :
      Carried setting state (frames ++ [frame]) after (forward ++ fresh.wire) back
  | withheld {frames : List Frame} {before after : State} {forward back reply : Bytes}
      {frame : Frame} (earlier : Carried setting state frames before forward back)
      (taken : Taken setting frames.length frame)
      (decided : setting.transform before frame.msgType frame.body = (.ok (.reply reply), after)) :
      Carried setting state (frames ++ [frame]) after forward (back ++ reply)

def wires (frames : List Frame) : Bytes := frames.flatMap Frame.wire

/-- Why a direction stands still with `rest` unread: how it ended, and what it wrote
forward at its end. -/
inductive Stopped (setting : Setting State Failure) (served : Nat) (broken : Bool)
    (state : State) (rest : Bytes) : Ending Failure → Bytes → Prop
  | shutdown (told : setting.shutdown served = true) :
      Stopped setting served broken state rest .shutdown []
  | closed (short : rest.length < frameHeaderLen) (ended : broken = false) :
      Stopped setting served broken state rest .closed []
  | cut (short : rest.length < frameHeaderLen) (ended : broken = true) :
      Stopped setting served broken state rest (.failed .io) []
  | malformed {header : Block frameHeaderLen} {more : Bytes} {cause : PgwireError}
      (found : rest = header.1 ++ more) (rejected : frameBodyLen header = .error cause) :
      Stopped setting served broken state rest (.failed (.pgwire cause)) []
  | oversized {header : Block frameHeaderLen} {more : Bytes} {msgType : UInt8} {bodyLen : Nat}
      (found : rest = header.1 ++ more) (accepted : frameBodyLen header = .ok (msgType, bodyLen))
      (large : setting.maxBody served < bodyLen) :
      Stopped setting served broken state rest
        (.failed (.preAuthFrameTooLarge msgType bodyLen (setting.maxBody served))) []
  | truncated {header : Block frameHeaderLen} {more : Bytes} {msgType : UInt8} {bodyLen : Nat}
      (found : rest = header.1 ++ more) (accepted : frameBodyLen header = .ok (msgType, bodyLen))
      (short : more.length < bodyLen) : Stopped setting served broken state rest (.failed .io) []
  | transform {frame : Frame} {more : Bytes} {cause : Failure} {after : State}
      (found : rest = frame.wire ++ more) (taken : Taken setting served frame)
      (decided : setting.transform state frame.msgType frame.body = (.error cause, after)) :
      Stopped setting served broken state rest (.failed (.transform cause)) []
  | header {frame : Frame} {more changed : Bytes} {cause : RowError} {after : State}
      (found : rest = frame.wire ++ more) (taken : Taken setting served frame)
      (decided : setting.transform state frame.msgType frame.body =
        (.ok (.replace changed), after))
      (rejected : encodeFrameHeader frame.msgType changed.length = .error cause) :
      Stopped setting served broken state rest (.failed (.frameTooLarge frame.msgType cause)) []
  | refused {frame : Frame} {more answer : Bytes} {after : State}
      (found : rest = frame.wire ++ more) (taken : Taken setting served frame)
      (decided : setting.transform state frame.msgType frame.body =
        (.ok (.refuseAndClose answer), after)) :
      Stopped setting served broken state rest .refused answer

/-- At a frame boundary: the frames read account for everything written. -/
def Framed (setting : Setting State Failure) (input : Stream) (state : State)
    (direction : Direction State) : Prop :=
  ∃ frames, input.bytes = wires frames ++ direction.input.bytes ∧
    input.broken = direction.input.broken ∧ direction.served = frames.length ∧
    Carried setting state frames direction.state direction.forward direction.back

/-- Past the end: the frames before the last one, fewer than the turns given, account for
everything written, but for the answer of a refusal. -/
def Finished (setting : Setting State Failure) (input : Stream) (state : State) (turns : Nat)
    (direction : Direction State) (ending : Ending Failure) : Prop :=
  ∃ frames rest last forward answer, input.bytes = wires frames ++ rest ∧
    frames.length < turns ∧ Carried setting state frames last forward direction.back ∧
    Stopped setting frames.length input.broken last rest ending answer ∧
    direction.forward = forward ++ answer

/-- After some turns: as many frames are dealt with, or there is a reason that fewer are. -/
def Accounted (setting : Setting State Failure) (input : Stream) (state : State) (turns : Nat)
    (reached : Direction State × Option (Ending Failure)) : Prop :=
  match reached.2 with
  | none => Framed setting input state reached.1 ∧ reached.1.served = turns
  | some ending => Finished setting input state turns reached.1 ending

variable {stream : Stream} {count : Nat}

theorem readExact_some {next : Stream} {block : Block count}
    (read : stream.readExact count = some (block, next)) :
    stream.bytes = block.1 ++ next.bytes ∧ stream.broken = next.broken := by
  unfold Stream.readExact at read
  split at read
  · cases read
    exact ⟨(List.take_append_drop count stream.bytes).symm, rfl⟩
  · cases read

theorem readExact_none (short : stream.readExact count = none) : stream.bytes.length < count := by
  unfold Stream.readExact at short
  split at short
  · cases short
  · rename_i less
    exact Nat.lt_of_not_le less

theorem encodeFrameHeader_ok {msgType : UInt8} {body fresh : Bytes}
    (encoded : encodeFrameHeader msgType body.length = .ok fresh) :
    fresh = (Frame.mk msgType body).header.1 ∧ (Frame.mk msgType body).Announced := by
  unfold encodeFrameHeader at encoded
  split at encoded
  · rename_i fits
    cases encoded
    exact ⟨rfl, announced_of_length fits⟩
  · cases encoded

theorem wires_snoc (frames : List Frame) (frame : Frame) :
    wires (frames ++ [frame]) = wires frames ++ frame.wire := by
  simp [wires]

variable {input : Stream} {state : State} {direction : Direction State}

theorem perform_accounted {before after : State} {frames : List Frame} {frame : Frame}
    {action : Action} (read : input.bytes = wires frames ++ (frame.wire ++ direction.input.bytes))
    (same : input.broken = direction.input.broken) (count : direction.served = frames.length + 1)
    (reached : direction.state = after) (taken : Taken setting frames.length frame)
    (earlier : Carried setting state frames before direction.forward direction.back)
    (decided : setting.transform before frame.msgType frame.body = (.ok action, after)) :
    Accounted setting input state (frames.length + 1)
      (perform direction frame.header.1 frame.body frame.msgType action) := by
  have extended : input.bytes = wires (frames ++ [frame]) ++ direction.input.bytes := by
    rw [wires_snoc, read, List.append_assoc]
  have counted : direction.served = (frames ++ [frame]).length := by
    rw [count, List.length_append]
    rfl
  have fewer : frames.length < frames.length + 1 := Nat.lt_succ_self _
  subst reached
  cases action with
  | relay =>
    refine ⟨⟨frames ++ [frame], extended, same, counted, ?_⟩, count⟩
    have carried := earlier.relayed taken decided
    rwa [Frame.wire, ← List.append_assoc] at carried
  | replace changed =>
    rw [perform]
    cases encoded : encodeFrameHeader frame.msgType changed.length with
    | error cause =>
      exact ⟨frames, _, before, _, [], read, fewer, earlier,
        .header rfl taken decided encoded, (List.append_nil _).symm⟩
    | ok fresh =>
      obtain ⟨rfl, fits⟩ := encodeFrameHeader_ok encoded
      refine ⟨⟨frames ++ [frame], extended, same, counted, ?_⟩, count⟩
      have carried := @Carried.replaced _ _ _ _ _ _ _ _ _ frame ⟨frame.msgType, changed⟩
        earlier taken fits rfl decided
      rwa [Frame.wire, ← List.append_assoc] at carried
  | reply answer => exact ⟨⟨_, extended, same, counted, earlier.withheld taken decided⟩, count⟩
  | refuseAndClose answer =>
    exact ⟨frames, _, before, _, answer, read, fewer, earlier, .refused rfl taken decided, rfl⟩

theorem turn_accounted (framed : Framed setting input state direction) :
    Accounted setting input state (direction.served + 1) (turn setting direction) := by
  obtain ⟨frames, parts, same, count, carried⟩ := framed
  have fewer : frames.length < direction.served + 1 := by omega
  -- an end before the frame is decided on writes nothing
  have stopped {input' : Stream} {ending : Ending Failure}
      (why : Stopped setting direction.served direction.input.broken direction.state
        direction.input.bytes ending []) :
      Accounted setting input state (direction.served + 1)
        ({ direction with input := input' }, some ending) := by
    rw [count, ← same] at why
    exact ⟨frames, _, _, _, [], parts, fewer, carried, why, (List.append_nil _).symm⟩
  unfold turn
  by_cases told : setting.shutdown direction.served = true
  · rw [if_pos told]
    exact stopped (.shutdown told)
  rw [if_neg told]
  cases opened : direction.input.readExact frameHeaderLen with
  | none =>
    have short := readExact_none opened
    cases ended : direction.input.broken with
    | false => exact stopped (.closed short ended)
    | true => exact stopped (.cut short ended)
  | some read =>
    obtain ⟨header, behind⟩ := read
    obtain ⟨found, unchanged⟩ := readExact_some opened
    simp only
    cases length : frameBodyLen header with
    | error cause => exact stopped (.malformed found length)
    | ok announcedAs =>
      obtain ⟨msgType, bodyLen⟩ := announcedAs
      simp only
      by_cases large : setting.maxBody direction.served < bodyLen
      · rw [if_pos large]
        exact stopped (.oversized found length large)
      rw [if_neg large]
      cases filled : behind.readExact bodyLen with
      | none => exact stopped (.truncated found length (readExact_none filled))
      | some read =>
        obtain ⟨body, rest⟩ := read
        obtain ⟨after, still⟩ := readExact_some filled
        obtain ⟨spelled, fits⟩ := header_of_accepted length
        have size : body.1.length = bodyLen := body.2
        have written : header.1 = (Frame.mk msgType body.1).header.1 := by
          rw [spelled]
          exact congrArg (fun length : Nat => msgType :: beInt (length + 4 : Nat)) size.symm
        have whole : direction.input.bytes =
            (Frame.mk msgType body.1).wire ++ rest.bytes := by
          rw [found, after, written, Frame.wire, List.append_assoc]
        have accounted : input.bytes =
            wires frames ++ ((Frame.mk msgType body.1).wire ++ rest.bytes) := by
          rw [parts, whole]
        have unbroken : input.broken = rest.broken := by rw [same, unchanged, still]
        have taken : Taken setting frames.length (Frame.mk msgType body.1) := by
          rw [← count]
          exact ⟨Bool.eq_false_iff.mpr told,
            announced_of_length (by simpa only [size] using fits),
            by simpa only [size] using Nat.le_of_not_lt large⟩
        obtain ⟨outcome, state', decided⟩ : ∃ outcome state',
            setting.transform direction.state msgType body.1 = (outcome, state') :=
          ⟨_, _, rfl⟩
        simp only [decided]
        cases outcome with
        | error cause =>
          rw [whole] at parts
          exact ⟨frames, _, _, _, [], parts, fewer, carried, .transform rfl taken decided,
            (List.append_nil _).symm⟩
        | ok action =>
          simp only [written, count]
          exact perform_accounted accounted unbroken rfl rfl taken carried decided

theorem Finished.mono {turns more : Nat} {ending : Ending Failure} (less : turns ≤ more)
    (finished : Finished setting input state turns direction ending) :
    Finished setting input state more direction ending := by
  obtain ⟨frames, rest, last, forward, answer, parts, fewer, accounted⟩ := finished
  exact ⟨frames, rest, last, forward, answer, parts, fewer.trans_le less, accounted⟩

/-- At every frame boundary of every run, what a direction has written is accounted for by
the frames it has read: a relayed frame byte for byte, a replaced one with its type and its
new body, a withheld one by its reply to the sender, each written header readable. A run of
`turns` turns has dealt with that many frames, or has ended for a reason its unread input
gives; it has then written no more than that, but for the answer of a refusal. -/
theorem relay_keeps_framing (setting : Setting State Failure) (input : Stream) (state : State)
    (turns : Nat) :
    Accounted setting input state turns (relay setting turns (opened input state)) := by
  have runs : ∀ turns direction, Framed setting input state direction →
      Accounted setting input state (direction.served + turns)
        (relay setting turns direction) := by
    intro turns
    induction turns with
    | zero => exact fun _ framed => ⟨framed, rfl⟩
    | succ turns ih =>
      intro direction framed
      have step := turn_accounted framed
      rw [relay]
      cases taken : turn setting direction with
      | mk next ending =>
        rw [taken] at step
        cases ending with
        | none =>
          obtain ⟨onward, served⟩ := step
          have rest := ih next onward
          rwa [show next.served + turns = direction.served + (turns + 1) by
            rw [show next.served = _ from served]; omega] at rest
        | some ending => exact Finished.mono (by omega) step
  have whole := runs turns (opened input state) ⟨[], rfl, rfl, rfl, .start⟩
  rwa [show (opened input state).served + turns = turns from Nat.zero_add turns] at whole

/-- A transform with one action per message type, over a peer that sends one frame of each. -/
def oneOfEach : Setting Unit Unit where
  transform _ msgType _ :=
    (.ok (if msgType = 0x51 then .relay else if msgType = 0x50 then .replace [7, 7]
      else if msgType = 0x42 then .reply [9] else .refuseAndClose [8]), ())
  maxBody _ := 4
  shutdown _ := false

def fourFrames : Stream :=
  ⟨wires [⟨0x51, [1]⟩, ⟨0x50, [2]⟩, ⟨0x42, []⟩, ⟨0x58, []⟩] ++ [0x51], false⟩

theorem four_frames_accounted :
    relay oneOfEach 9 (opened fourFrames ()) =
      (⟨⟨[0x51], false⟩, (), wires [⟨0x51, [1]⟩, ⟨0x50, [7, 7]⟩] ++ [8], [9], 4⟩, some .refused) ∧
    Accounted oneOfEach fourFrames () 3 (relay oneOfEach 3 (opened fourFrames ())) ∧
    Accounted oneOfEach fourFrames () 9 (relay oneOfEach 9 (opened fourFrames ())) :=
  ⟨rfl, relay_keeps_framing oneOfEach fourFrames () 3,
    relay_keeps_framing oneOfEach fourFrames () 9⟩

end Runs

end Dbsec.Relay
