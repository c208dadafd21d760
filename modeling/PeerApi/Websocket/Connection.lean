import PeerApi.Websocket.Close

/-! A websocket connection once its opening handshake is done: what the user asks of it,
what the transport tells it, and how it is closed. It takes the requests of the user one at
a time. What it sends goes through a queue, since the transport writes one batch after the
other, and a message marked terminal ends a batch and the connection. Sending a close frame
and its acknowledgement make up the closing handshake, after which the server drops the
transport and the client waits for that, as long as a timer allows. -/

namespace PeerApi.Websocket

/-- `session::state::value`. -/
inductive SessionState where
  | connecting
  | open
  | closing
  | closed
  deriving DecidableEq, Repr

inductive TerminateStatus where
  | failed
  | closed
  | unknown
  deriving DecidableEq, Repr

/-- What a connection queued, and which handlers it called with what. -/
inductive Obs where
  | sent (op : Opcode) (payload : List UInt8)
  | pinged (payload : List UInt8)
  | ponged (payload : List UInt8)
  | closing (code : CloseStatus) (reason : List UInt8) (ack : Bool)
  | message (m : Message)
  | ping (payload : List UInt8)
  | pong (payload : List UInt8)
  | closed
  | failed
  deriving DecidableEq, Repr

/-- What the user asks of a connection. A payload to be sent is in memory. -/
inductive Call where
  | send (op : Opcode) (payload : List UInt8) (h : payload.length < 2 ^ 64)
  | ping (payload : List UInt8)
  | pong (payload : List UInt8)
  | close (code : CloseStatus) (reason : List UInt8)

/-- The user of a connection, whose handlers may ask something of it at once, and the
random generator of the masking keys. Without a ping handler every ping is answered. -/
structure User where
  react : List Obs → List Call
  reply : List Obs → Bool
  key : ℕ → MaskingKey

structure Connection where
  isServer : Bool
  processor : Hybi13
  state : SessionState := .open
  sendQueue : List Message := []
  sendBufferSize : ℕ := 0
  writeFlag : Bool := false
  currentMsgs : List Message := []
  wasClean : Bool := false
  localCloseCode : CloseStatus := CloseStatus.abnormalClose
  localCloseReason : List UInt8 := []
  remoteCloseCode : CloseStatus := CloseStatus.abnormalClose
  remoteCloseReason : List UInt8 := []
  ec : Option ErrorCode := none
  /-- `m_handshake_timer` runs. -/
  handshakeTimer : Bool := false
  /-- The calls of `write_frame` that have been dispatched. -/
  dispatched : ℕ := 0
  /-- The transport has been asked to read. -/
  reading : Bool := true
  /-- The calls of `handle_terminate` to come when the transport has shut down. -/
  shutdowns : List TerminateStatus := []
  /-- The keys that have been drawn. -/
  drawn : ℕ := 0
  /-- All that the transport has been given to write. -/
  written : List UInt8 := []
  obs : List Obs := []

/-- `frame::limits::close_reason_size`. -/
def closeReasonSize : ℕ := 123

namespace Connection

/-- A connection whose opening handshake is done. -/
def start (isServer : Bool) (maxMessageSize : ℕ) : Connection :=
  { isServer, processor := .new isServer maxMessageSize }

/-! ### Sending -/

def writePush (c : Connection) (msg : Message) : Connection :=
  { c with
    sendBufferSize := c.sendBufferSize + msg.payload.length
    sendQueue := c.sendQueue ++ [msg] }

def writePop (c : Connection) : Option Message × Connection :=
  match c.sendQueue with
  | [] => (none, c)
  | msg :: rest =>
    (some msg, { c with
      sendBufferSize := c.sendBufferSize - msg.payload.length
      sendQueue := rest })

/-- A call of `write_frame` is dispatched if there is something to write. -/
def needsWriting (c : Connection) : Connection :=
  if !c.writeFlag && c.sendQueue ≠ [] then { c with dispatched := c.dispatched + 1 } else c

/-- A prepared message is queued. -/
def queue (c : Connection) (o : Obs) (msg : Message) : Connection :=
  ({ c with drawn := c.drawn + 1, obs := c.obs ++ [o] }.writePush msg).needsWriting

def send (u : User) (c : Connection) (op : Opcode) (payload : List UInt8) :
    Option ErrorCode × Connection :=
  if c.state ≠ .open then (some (.library .invalidState), c)
  else
    match c.processor.prepareDataFrame (u.key c.drawn) { opcode := op, payload } with
    | .error ec => (some (.processor ec), c)
    | .ok msg => (none, c.queue (.sent op payload) msg)

def ping (u : User) (c : Connection) (payload : List UInt8) : Option ErrorCode × Connection :=
  if c.state ≠ .open then (some (.library .invalidState), c)
  else
    match c.processor.preparePing (u.key c.drawn) payload with
    | .error ec => (some (.processor ec), c)
    | .ok msg => (none, c.queue (.pinged payload) msg)

def pong (u : User) (c : Connection) (payload : List UInt8) : Option ErrorCode × Connection :=
  if c.state ≠ .open then (some (.library .invalidState), c)
  else
    match c.processor.preparePong (u.key c.drawn) payload with
    | .error ec => (some (.processor ec), c)
    | .ok msg => (none, c.queue (.ponged payload) msg)

/-- The code and the reason that a close frame is sent with. -/
def closeInfo (c : Connection) (code : CloseStatus) (reason : List UInt8) (ack : Bool) :
    CloseStatus × List UInt8 :=
  if code ≠ CloseStatus.blank then (code, reason)
  else if !ack then (CloseStatus.noStatus, [])
  else if c.remoteCloseCode = CloseStatus.noStatus then (CloseStatus.normal, [])
  else (c.remoteCloseCode, c.remoteCloseReason)

def sendCloseFrame (u : User) (c : Connection) (code : CloseStatus) (reason : List UInt8)
    (ack terminal : Bool) : Option ErrorCode × Connection :=
  let (code, reason) := c.closeInfo code reason ack
  let c := { c with localCloseCode := code, localCloseReason := reason }
  match c.processor.prepareClose (u.key c.drawn) code reason with
  | .error ec => (some (.processor ec), c)
  | .ok msg =>
    let msg := if terminal then { msg with terminal := true } else msg
    let c := { c with
      state := .closing
      wasClean := c.wasClean || ack
      handshakeTimer := true }
    (none, c.queue (.closing code reason ack) msg)

def sendCloseAck (u : User) (c : Connection) (code : CloseStatus := CloseStatus.blank)
    (reason : List UInt8 := []) : Option ErrorCode × Connection :=
  c.sendCloseFrame u code reason true c.isServer

def close (u : User) (c : Connection) (code : CloseStatus) (reason : List UInt8) :
    Option ErrorCode × Connection :=
  let tr := reason.take (min reason.length closeReasonSize)
  if c.state ≠ .open then (some (.library .invalidState), c)
  else c.sendCloseFrame u code tr false code.terminal

def call (u : User) (c : Connection) : Call → Connection
  | .send op payload _ => (c.send u op payload).2
  | .ping payload => (c.ping u payload).2
  | .pong payload => (c.pong u payload).2
  | .close code reason => (c.close u code reason).2

/-- A handler is called, and asks what it asks. -/
def handle (u : User) (c : Connection) (o : Obs) : Connection :=
  let c := { c with obs := c.obs ++ [o] }
  (u.react c.obs).foldl (call u) c

/-! ### The end -/

def terminate (c : Connection) (ec : Option ErrorCode) : Connection :=
  let c := { c with handshakeTimer := false }
  let c :=
    match ec with
    | none => c
    | some e => { c with
        ec := some e
        localCloseCode := CloseStatus.abnormalClose
        localCloseReason := e.message }
  match c.state with
  | .connecting => { c with state := .closed, shutdowns := c.shutdowns ++ [.failed] }
  | .open => { c with state := .closed, shutdowns := c.shutdowns ++ [.closed] }
  | .closing => { c with state := .closed, shutdowns := c.shutdowns ++ [.closed] }
  | .closed => c

def handleTerminate (u : User) (c : Connection) (tstat : TerminateStatus) : Connection :=
  match tstat with
  | .failed =>
    if c.ec ≠ some (.library .httpConnectionEnded) then c.handle u .failed else c
  | .closed => c.handle u .closed
  | .unknown => c

def handleCloseHandshakeTimeout (c : Connection) (ec : Option ErrorCode) : Connection :=
  match ec with
  | some _ => c
  | none => c.terminate (some (.library .closeHandshakeTimeout))

/-! ### Writing -/

/-- The messages that are ready to write, up to one marked terminal. -/
def collect : ℕ → Connection → Connection
  | 0, c => c
  | n + 1, c =>
    match c.writePop with
    | (none, c) => c
    | (some msg, c) =>
      let c := { c with currentMsgs := c.currentMsgs ++ [msg] }
      if msg.terminal then c else collect n c

def writeFrame (c : Connection) : Connection :=
  if c.writeFlag then c
  else
    let c := collect c.sendQueue.length c
    if c.currentMsgs = [] then c
    else
      { c with
        writeFlag := true
        written := c.written ++ c.currentMsgs.flatMap Message.bytes }

def handleWriteFrame (c : Connection) (ec : Option ErrorCode) : Connection :=
  let terminal := c.currentMsgs.getLast?.any Message.terminal
  let c := { c with currentMsgs := [] }
  match ec with
  | some e => c.terminate (some e)
  | none =>
    if terminal then c.terminate none
    else { c with writeFlag := false }.needsWriting

/-! ### Reading -/

def processControlFrame (u : User) (c : Connection) (msg : Message) : Connection :=
  let op := msg.opcode
  if c.state = .closed then c
  else if op ≠ .close ∧ c.state ≠ .open then c
  else if op = .ping then
    let shouldReply := u.reply (c.obs ++ [.ping msg.payload])
    let c := c.handle u (.ping msg.payload)
    if shouldReply then (c.pong u msg.payload).2 else c
  else if op = .pong then c.handle u (.pong msg.payload)
  else if op = .close then
    let (code, ec) := extractCode msg.payload
    let c := { c with remoteCloseCode := code }
    if ec ≠ none then
      (c.sendCloseAck u CloseStatus.protocolError "Invalid close code".toUTF8.toList).2
    else
      let (reason, ec) := extractReason msg.payload
      let c := { c with remoteCloseReason := reason }
      if ec ≠ none then
        (c.sendCloseAck u CloseStatus.protocolError "Invalid close reason".toUTF8.toList).2
      else if c.state = .open then (c.sendCloseAck u).2
      else if c.state = .closing ∧ c.wasClean = false then
        let c := { c with wasClean := true }
        if c.isServer then c.terminate none else c
      else c
  else c

/-- A message that has been read. -/
def deliver (u : User) (c : Connection) (msg : Message) : Connection :=
  if !msg.opcode.isControl then
    if c.state ≠ .open then c else c.handle u (.message msg)
  else c.processControlFrame u msg

/-- The loop of `handle_read_frame`. After an error nothing is read any more. -/
def readLoop (u : User) : ℕ → Connection → List UInt8 → Connection
  | 0, c, _ => { c with reading := true }
  | fuel + 1, c, buf =>
    if buf = [] then { c with reading := true }
    else
      match c.processor.consume buf with
      | .error ec =>
        let (closeEc, c) := c.close u (toWs (.processor ec)) (ErrorCode.processor ec).message
        match closeEc with
        | some e => c.terminate (some e)
        | none => c
      | .ok (p, buf) =>
        if p.ready then
          let (msg, p) := p.getMessage
          let c := { c with processor := p }
          match msg with
          | none => readLoop u fuel c buf
          | some m => readLoop u fuel (c.deliver u m) buf
        else readLoop u fuel { c with processor := p } buf

def handleReadFrame (u : User) (c : Connection) (ec : Option ErrorCode) (buf : List UInt8) :
    Connection :=
  let c := { c with reading := false }
  match ec with
  | none => readLoop u buf.length c buf
  | some e =>
    if e = .transport .eof ∧ c.state = .closed then c
    else if e = .transport .eof ∧ c.state = .closing ∧ c.isServer = false then c.terminate none
    else if e = .library .invalidState ∧ c.state = .closed then c
    else if e = .transport .tlsShortRead ∧ c.state = .closed then c.terminate none
    else c.terminate (some e)

/-! ### Steps -/

/-- What comes from outside: the user, the work that was dispatched, the transport and the
timer. -/
inductive Action where
  | call (x : Call)
  | writeFrame
  | written (ec : Option ErrorCode)
  | read (ec : Option ErrorCode) (buf : List UInt8)
  | timeout
  | shutdown

def step (u : User) (c : Connection) : Action → Connection
  | .call x => c.call u x
  | .writeFrame =>
    if c.dispatched = 0 then c else { c with dispatched := c.dispatched - 1 }.writeFrame
  | .written ec => if c.currentMsgs = [] then c else c.handleWriteFrame ec
  | .read ec buf =>
    if c.reading ∧ (ec = none → buf ≠ []) then c.handleReadFrame u ec buf else c
  | .timeout => if c.handshakeTimer then c.handleCloseHandshakeTimeout none else c
  | .shutdown =>
    match c.shutdowns with
    | [] => c
    | tstat :: rest => { c with shutdowns := rest }.handleTerminate u tstat

end Connection

end PeerApi.Websocket
