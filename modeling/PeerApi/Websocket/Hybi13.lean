import PeerApi.Websocket.Frame
import PeerApi.Websocket.Utf8

/-! The processor of the websocket library for version 13 of the protocol. It reads a
stream that arrives in buffers of any length, field by field of the frames, and keeps
between two buffers which field it is in and how many bytes of it are missing. A control
message may come between the frames of a data message, so there is a message under way of
each kind. No extension is configured. -/

namespace PeerApi.Websocket

open Base

inductive ProcessorError where
  | general
  | messageTooBig
  | invalidPayload
  | invalidOpcode
  | controlTooBig
  | invalidRsvBit
  | fragmentedControl
  | invalidContinuation
  | maskingRequired
  | maskingForbidden
  | nonMinimalEncoding
  | invalidUtf8
  | reservedCloseCode
  | invalidCloseCode
  | reasonRequiresCode
  deriving DecidableEq, Repr

/-- `message_buffer::message`. -/
structure Message where
  opcode : Opcode
  payload : List UInt8 := []
  header : List UInt8 := []
  prepared : Bool := false
  fin : Bool := true
  terminal : Bool := false
  deriving DecidableEq, Repr

/-- `msg_metadata`. -/
structure MsgMetadata where
  msgPtr : Option Message := none
  preparedKey : UInt64 := 0
  validator : Validator := {}
  deriving DecidableEq, Repr

def MsgMetadata.new (m : Message) (key : MaskingKey) : MsgMetadata :=
  { msgPtr := some m, preparedKey := prepareMaskingKey key }

namespace Hybi13

inductive State where
  | headerBasic
  | headerExtended
  | extension
  | application
  | ready
  | fatalError
  deriving DecidableEq, Repr

/-- What `m_current_msg` points to. -/
inductive Slot where
  | data
  | control
  deriving DecidableEq, Repr

end Hybi13

/-- The pointer `currentMsg` is first set before it is first used. -/
structure Hybi13 where
  server : Bool
  maxMessageSize : ℕ := 32000000
  state : Hybi13.State := .headerBasic
  bytesNeeded : ℕ := basicHeaderLength
  cursor : ℕ := 0
  basicHeader : BasicHeader := {}
  extendedHeader : ExtendedHeader := {}
  dataMsg : MsgMetadata := {}
  controlMsg : MsgMetadata := {}
  currentMsg : Hybi13.Slot := .data
  deriving DecidableEq, Repr

/-- `validate_incoming_basic_header`. -/
def validateIncomingBasicHeader (h : BasicHeader) (isServer newMsg : Bool) :
    Option ProcessorError :=
  let op := getOpcode h
  if op.isControl && (getBasicSize h).toNat > payloadSizeBasic then some .controlTooBig
  else if getRsv1 h then some .invalidRsvBit
  else if getRsv2 h || getRsv3 h then some .invalidRsvBit
  else if op.reserved then some .invalidOpcode
  else if op.invalid then some .invalidOpcode
  else if op.isControl && !getFin h then some .fragmentedControl
  else if newMsg && op = .continuation then some .invalidContinuation
  else if !newMsg && !op.isControl && op ≠ .continuation then some .invalidContinuation
  else if isServer && !getMasked h then some .maskingRequired
  else if !isServer && getMasked h then some .maskingForbidden
  else none

/-- `validate_incoming_extended_header`, with words of 64 bits. -/
def validateIncomingExtendedHeader (h : BasicHeader) (e : ExtendedHeader) :
    Option ProcessorError :=
  let basicSize := getBasicSize h
  let payloadSize := getPayloadSize h e
  if basicSize = payloadSizeCode16bit ∧ payloadSize ≤ payloadSizeBasic then
    some .nonMinimalEncoding
  else if basicSize = payloadSizeCode64bit ∧ payloadSize ≤ payloadSizeExtended then
    some .nonMinimalEncoding
  else none

namespace Hybi13

/-- `*m_current_msg`. -/
def current (p : Hybi13) : MsgMetadata :=
  match p.currentMsg with
  | .data => p.dataMsg
  | .control => p.controlMsg

def setCurrent (p : Hybi13) (m : MsgMetadata) : Hybi13 :=
  match p.currentMsg with
  | .data => { p with dataMsg := m }
  | .control => { p with controlMsg := m }

def resetHeaders (p : Hybi13) : Hybi13 :=
  { p with
    state := .headerBasic
    bytesNeeded := basicHeaderLength
    basicHeader := {}
    extendedHeader := {} }

/-- The functions that read bytes return what is left of the buffer. -/
def copyBasicHeaderBytes (p : Hybi13) (buf : List UInt8) : Hybi13 × List UInt8 :=
  if p.bytesNeeded = 0 then (p, buf)
  else
    match buf with
    | [] => (p, [])
    | [b] =>
      if p.bytesNeeded = 2 then
        ({ p with basicHeader := { p.basicHeader with b0 := b }, bytesNeeded := 1 }, [])
      else
        ({ p with
          basicHeader := { p.basicHeader with b1 := b }
          bytesNeeded := p.bytesNeeded - 1 }, [])
    | b :: c :: buf =>
      if p.bytesNeeded = 2 then
        ({ p with basicHeader := ⟨b, c⟩, bytesNeeded := 0 }, buf)
      else
        ({ p with
          basicHeader := { p.basicHeader with b1 := b }
          bytesNeeded := p.bytesNeeded - 1 }, c :: buf)

def copyExtendedHeaderBytes (p : Hybi13) (buf : List UInt8) : Hybi13 × List UInt8 :=
  let bytesToRead := min p.bytesNeeded buf.length
  ({ p with
    extendedHeader := ⟨copyTo p.extendedHeader.bytes p.cursor (buf.take bytesToRead)⟩
    cursor := p.cursor + bytesToRead
    bytesNeeded := p.bytesNeeded - bytesToRead }, buf.drop bytesToRead)

/-- The bytes are unmasked, appended and, in a text message, validated. -/
def processPayloadBytes (p : Hybi13) (buf : List UInt8) : Except ProcessorError Hybi13 :=
  let (bytes, key) :=
    if getMasked p.basicHeader then byteMaskCirc buf p.current.preparedKey
    else (buf, p.current.preparedKey)
  let msg := p.current.msgPtr.map fun m => { m with payload := m.payload ++ bytes }
  let isText := p.current.msgPtr.any fun m => m.opcode = .text
  let (validator, valid) :=
    if isText then p.current.validator.decode bytes else (p.current.validator, true)
  if valid then
    .ok { p.setCurrent ⟨msg, key, validator⟩ with bytesNeeded := p.bytesNeeded - buf.length }
  else .error .invalidUtf8

/-- The end of a text is looked at if the frame that ends the message is a text frame. -/
def finalizeMessage (p : Hybi13) : Except ProcessorError Hybi13 :=
  if getOpcode p.basicHeader = .text ∧ p.current.validator.complete = false then
    .error .invalidUtf8
  else .ok { p with state := .ready }

/-- The part of `consume` that sets up the message of a frame. The sum of the sizes is one
of machine words. -/
def startFrame (p : Hybi13) : Except ProcessorError Hybi13 :=
  let op := getOpcode p.basicHeader
  let key := getMaskingKey p.basicHeader p.extendedHeader
  if op.isControl then
    .ok { p with controlMsg := .new { opcode := op } key, currentMsg := .control }
  else
    match p.dataMsg.msgPtr with
    | none =>
      if p.bytesNeeded > p.maxMessageSize then .error .messageTooBig
      else .ok { p with dataMsg := .new { opcode := op } key, currentMsg := .data }
    | some m =>
      if (m.payload.length + p.bytesNeeded) % 2 ^ 64 > p.maxMessageSize then .error .messageTooBig
      else
        .ok { p with
          dataMsg := { p.dataMsg with preparedKey := prepareMaskingKey key }
          currentMsg := .data }

/-- The end of a frame, once its payload has been read. -/
def endFrame (p : Hybi13) : Except ProcessorError Hybi13 :=
  if getFin p.basicHeader then p.finalizeMessage else .ok p.resetHeaders

/-- The end of the basic header, which says how long the rest of the header is. -/
def endBasicHeader (p : Hybi13) : Except ProcessorError Hybi13 :=
  match validateIncomingBasicHeader p.basicHeader p.server p.dataMsg.msgPtr.isNone with
  | some ec => .error ec
  | none =>
    .ok { p with
      state := .headerExtended
      cursor := 0
      bytesNeeded := getHeaderLen p.basicHeader - basicHeaderLength }

def endExtendedHeader (p : Hybi13) : Except ProcessorError Hybi13 :=
  match validateIncomingExtendedHeader p.basicHeader p.extendedHeader with
  | some ec => .error ec
  | none =>
    startFrame { p with
      state := .application
      bytesNeeded := getPayloadSize p.basicHeader p.extendedHeader }

def consumeBasic (p : Hybi13) (buf : List UInt8) :
    Except ProcessorError (Hybi13 × List UInt8) := do
  let (p, buf) := p.copyBasicHeaderBytes buf
  let p ← (if p.bytesNeeded > 0 then .ok p else p.endBasicHeader)
  return (p, buf)

def consumeExtended (p : Hybi13) (buf : List UInt8) :
    Except ProcessorError (Hybi13 × List UInt8) := do
  let (p, buf) := p.copyExtendedHeaderBytes buf
  let p ← (if p.bytesNeeded > 0 then .ok p else p.endExtendedHeader)
  return (p, buf)

def consumeApplication (p : Hybi13) (buf : List UInt8) :
    Except ProcessorError (Hybi13 × List UInt8) := do
  let bytesToProcess := min p.bytesNeeded buf.length
  let p ←
    (if bytesToProcess > 0 then p.processPayloadBytes (buf.take bytesToProcess) else .ok p)
  let p ← (if p.bytesNeeded > 0 then .ok p else p.endFrame)
  return (p, buf.drop bytesToProcess)

/-- One round of the loop of `consume`. -/
def consumeRound (p : Hybi13) (buf : List UInt8) : Except ProcessorError (Hybi13 × List UInt8) :=
  match p.state with
  | .headerBasic => p.consumeBasic buf
  | .headerExtended => p.consumeExtended buf
  | .extension => .ok ({ p with state := .application }, buf)
  | .application => p.consumeApplication buf
  | .ready => .error .general
  | .fatalError => .error .general

/-- The condition of the loop of `consume`. -/
def continues (p : Hybi13) (buf : List UInt8) : Bool :=
  p.state ≠ .ready && p.state ≠ .fatalError && (buf ≠ [] || p.bytesNeeded = 0)

def consumeLoop : ℕ → Hybi13 → List UInt8 → Except ProcessorError (Hybi13 × List UInt8)
  | 0, p, buf => .ok (p, buf)
  | fuel + 1, p, buf =>
    if p.continues buf then
      match p.consumeRound buf with
      | .error ec => .error ec
      | .ok (p, buf) => consumeLoop fuel p buf
    else .ok (p, buf)

/-- The processor and what is left of the buffer. After an error the connection reads no
more, and what the processor holds then is of no use. -/
def consume (p : Hybi13) (buf : List UInt8) : Except ProcessorError (Hybi13 × List UInt8) :=
  consumeLoop (4 * buf.length + 4) p buf

def ready (p : Hybi13) : Bool := p.state = .ready

def getMessage (p : Hybi13) : Option Message × Hybi13 :=
  if !p.ready then (none, p)
  else
    match p.current.msgPtr with
    | none => (none, p)
    | some ret =>
      let p := p.setCurrent { p.current with msgPtr := none }
      let p :=
        if ret.opcode.isControl then { p with controlMsg := { p.controlMsg with msgPtr := none } }
        else { p with dataMsg := { p.dataMsg with msgPtr := none } }
      (some ret, p.resetHeaders)

end Hybi13

/-! ### The loop of the connection -/

/-- What became of some bytes: the messages in their order, and the processor that reads on
or the error that ended it. -/
structure Received where
  messages : List Message := []
  result : Except ProcessorError Hybi13

def Received.after (r : Received) (messages : List Message) : Received :=
  { r with messages := messages ++ r.messages }

/-- The loop of `handle_read_frame` over one buffer. -/
def receiveLoop : ℕ → Hybi13 → List UInt8 → Received
  | 0, p, _ => { result := .ok p }
  | fuel + 1, p, buf =>
    if buf = [] then { result := .ok p }
    else
      match p.consume buf with
      | .error ec => { result := .error ec }
      | .ok (p, buf) =>
        if p.ready then
          let (msg, p) := p.getMessage
          (receiveLoop fuel p buf).after msg.toList
        else receiveLoop fuel p buf

def receive (p : Hybi13) (buf : List UInt8) : Received := receiveLoop buf.length p buf

/-- A stream as it arrives, buffer after buffer. -/
def receiveAll (p : Hybi13) : List (List UInt8) → Received
  | [] => { result := .ok p }
  | buf :: bufs =>
    let r := receive p buf
    match r.result with
    | .error _ => r
    | .ok p => (receiveAll p bufs).after r.messages

namespace Hybi13

/-! ### Sending -/

/-- `prepare_data_frame`, with the key that the random generator gives. -/
def prepareDataFrame (p : Hybi13) (key : MaskingKey) (msg : Message) :
    Except ProcessorError Message :=
  let op := msg.opcode
  if op.isControl then .error .invalidOpcode
  else if op = .text && !validate msg.payload then .error .invalidPayload
  else
    let masked := !p.server
    let payload := if masked then byteMask msg.payload key else msg.payload
    let h := BasicHeader.new op payload.length msg.fin masked
    let e := if masked then ExtendedHeader.masked payload.length key
      else ExtendedHeader.unmasked payload.length
    .ok { opcode := op, payload, header := prepareHeader h e, prepared := true }

def prepareControl (p : Hybi13) (key : MaskingKey) (op : Opcode) (payload : List UInt8) :
    Except ProcessorError Message :=
  if !op.isControl then .error .invalidOpcode
  else if payload.length > payloadSizeBasic then .error .controlTooBig
  else
    let masked := !p.server
    let h := BasicHeader.new op payload.length true masked
    let e := if masked then ExtendedHeader.masked payload.length key
      else ExtendedHeader.unmasked payload.length
    .ok { opcode := op
          payload := if masked then byteMask payload key else payload
          header := prepareHeader h e
          prepared := true }

def preparePing (p : Hybi13) (key : MaskingKey) (payload : List UInt8) :
    Except ProcessorError Message := p.prepareControl key .ping payload

def preparePong (p : Hybi13) (key : MaskingKey) (payload : List UInt8) :
    Except ProcessorError Message := p.prepareControl key .pong payload

end Hybi13

/-- The bytes of a prepared message that go out. -/
def Message.bytes (m : Message) : List UInt8 := m.header ++ m.payload

end PeerApi.Websocket
