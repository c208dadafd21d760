import PeerApi.Common
import PeerApi.Base.Run

/-! The connection to the signal server: the user thread's `Open`, `Close` and
`SyncClose`, and the handlers of the network thread's run loop. A websocket
connection is a number, an attempt until `OnOpen` or `OnFail`, then live until
`OnClose`. Dispatched handlers and timer waits are work of the run loop, which
ends only when none is left. A join splits the call that makes it: the user
thread waits in `joining` and goes on at `joined`, once the loop has ended. -/

namespace PeerApi

/-- `websocketpp::close::status::value`. -/
abbrev CloseStatus := UInt16

namespace CloseStatus

def normal : CloseStatus := 1000

def abnormalClose : CloseStatus := 1006

end CloseStatus

inductive ConState where
  | opening
  | opened
  | closing
  | closed
  deriving DecidableEq, Repr

/-- One outstanding `async_wait`: the timer runs, its handler is queued with
success, or its handler is queued with `operation_aborted`. -/
inductive Wait where
  | armed (delay : ℕ)
  | expired
  | aborted
  deriving DecidableEq, Repr

def Wait.cancel : Wait → Wait
  | .armed _ => .aborted
  | .expired => .expired
  | .aborted => .aborted

/-- A command given to `client_.send`. -/
structure SignalCommand where
  channel : String
  command : String
  data : Json

/-- The call in which the user thread waits for the network thread. -/
inductive Join where
  | connect
  | syncClose
  deriving DecidableEq, Repr

structure Signal where
  conState : ConState
  conHdl : Option ℕ
  thread : Bool
  running : Bool
  joining : Option Join
  /-- Dispatched `ConnectInternal` handlers. -/
  connects : ℕ
  /-- Dispatched `CloseInternal` handlers, each with the handle of the request. -/
  closes : List (Option ℕ)
  attempts : List ℕ
  live : List ℕ
  nextConn : ℕ
  reconnTimer : Bool
  waits : List Wait
  reconnAttempts : ℕ
  reconnMade : ℕ
  reconnDelay : ℕ
  reconnDelayMax : ℕ
  userId : String
  userPassword : String
  sent : List SignalCommand
  /-- Connections that `CloseInternal` closed, with the handle of the request. -/
  closed : List (Option ℕ × ℕ)

namespace Signal

def init : Signal where
  conState := .closed
  conHdl := none
  thread := false
  running := false
  joining := none
  connects := 0
  closes := []
  attempts := []
  live := []
  nextConn := 0
  reconnTimer := false
  waits := []
  reconnAttempts := 3
  reconnMade := 0
  reconnDelay := 5000
  reconnDelayMax := 25000
  userId := ""
  userPassword := ""
  sent := []
  closed := []

def setReconnectAttempts (attempts : ℕ) (s : Signal) : Signal :=
  { s with reconnAttempts := attempts }

def setReconnectDelay (millis : ℕ) (s : Signal) : Signal :=
  { s with
    reconnDelay := millis
    reconnDelayMax := if s.reconnDelayMax < millis then millis else s.reconnDelayMax }

def setReconnectDelayMax (millis : ℕ) (s : Signal) : Signal :=
  { s with
    reconnDelayMax := millis
    reconnDelay := if s.reconnDelay > millis then millis else s.reconnDelay }

def opened (s : Signal) : Bool := s.conState = .opened

def sendCommand (channel command : String) (data : Json) (s : Signal) : Signal :=
  if command = "" then s
  else if s.opened then { s with sent := s.sent ++ [⟨channel, command, data⟩] }
  else s

theorem sendCommand_sent (channel command : String) (data : Json) (s : Signal) :
    (s.sendCommand channel command data).sent =
      s.sent ++ if s.opened ∧ command ≠ "" then [⟨channel, command, data⟩] else [] := by
  unfold sendCommand
  by_cases hc : command = ""
  · simp [hc]
  · by_cases ho : s.opened = true
    · simp [hc, ho]
    · simp [hc, ho]

/-- A command is written if the connection is open. -/
theorem sendCommand_writes {command : String} (hc : command ≠ "") (channel : String) (data : Json)
    (s : Signal) :
    decide (s.sent.length < (s.sendCommand channel command data).sent.length) = s.opened := by
  rw [sendCommand_sent]
  cases ho : s.opened <;> simp [hc]

theorem sendCommand_opened (channel command : String) (data : Json) (s : Signal) :
    (s.sendCommand channel command data).opened = s.opened := by
  unfold sendCommand
  split_ifs <;> rfl

def sendOpenCommand (s : Signal) : Signal :=
  s.sendCommand "" "open"
    (.obj [("user_id", .str s.userId), ("user_password", .str s.userPassword)])

/-- `reconn_timer_->cancel(); reconn_timer_.reset()`, when there is a timer. -/
def cancelTimer (s : Signal) : Signal :=
  if s.reconnTimer then { s with waits := s.waits.map Wait.cancel, reconnTimer := false } else s

/-- The part of `Connect` after the join: a fresh run loop with the attempt
dispatched to it. -/
def startLoop (s : Signal) : Signal :=
  { s with
    conState := .opening
    reconnMade := 0
    connects := s.connects + 1
    thread := true
    running := true }

def connect (s : Signal) : Signal :=
  let s := s.cancelTimer
  if s.thread then
    if s.conState = .closing ∨ s.conState = .closed then { s with joining := some .connect }
    else s
  else s.startLoop

def openWith (id password : String) (s : Signal) : Signal :=
  connect { s with userId := id, userPassword := password }

def close (s : Signal) : Signal :=
  if s.opened then { s with conState := .closing, closes := s.closes ++ [s.conHdl] } else s

def syncClose (s : Signal) : Signal :=
  if s.opened then
    { s.close with joining := if s.thread then some .syncClose else s.joining }
  else s

/-- The join returns: `Connect` goes on with a new loop, `SyncClose` is done. -/
def joined (s : Signal) : Signal :=
  match s.joining with
  | some .connect => startLoop { s with joining := none, thread := false }
  | some .syncClose => { s with joining := none, thread := false }
  | none => s

/-- Handlers of the run loop, with what the libraries decide: whether
`get_connection` succeeds, and the close code, absent when the connection of the
handle cannot be found. -/
inductive NetAction where
  | connectInternal (ok : Bool)
  | closeInternal
  | onOpen (k : ℕ)
  | onFail (k : ℕ) (code : Option CloseStatus)
  | onClose (k : ℕ) (code : Option CloseStatus)
  | expire (i : ℕ)
  | timeoutReconnect (i : ℕ)
  | exit
  deriving DecidableEq, Repr

def connectInternal (ok : Bool) (s : Signal) : Signal :=
  let s := { s with connects := s.connects - 1 }
  if ok then { s with attempts := s.nextConn :: s.attempts, nextConn := s.nextConn + 1 } else s

/-- `con_hdl_.expired()`: the handle is unset or its connection is gone. -/
def hdlExpired (s : Signal) : Bool :=
  match s.conHdl with
  | none => true
  | some k => !(s.live.contains k)

def closeInternal (s : Signal) : Signal :=
  let target := s.closes.headD none
  let s := { s with closes := s.closes.tail }.cancelTimer
  match s.conHdl with
  | some k => if s.hdlExpired then s else { s with closed := s.closed ++ [(target, k)] }
  | none => s

/-- `reconn_delay_ * 1.5 ^ reconn_made`, at most `reconn_delay_max_`, rounded
down; the exponent is capped at 32. -/
def nextDelay (s : Signal) : ℕ :=
  let made := min s.reconnMade 32
  min (s.reconnDelay * 3 ^ made / 2 ^ made) s.reconnDelayMax

def onOpen (k : ℕ) (s : Signal) : Signal :=
  sendOpenCommand
    { s with
      attempts := s.attempts.erase k
      live := k :: s.live
      conState := .opened
      conHdl := some k
      reconnMade := 0 }

/-- The codes passed to `SignalOnClosed_`, and the connection after `OnClose`. -/
def onClose (k : ℕ) (code : Option CloseStatus) (s : Signal) : Signal × List CloseStatus :=
  let s := { s with live := s.live.erase k, conState := .closed, conHdl := none }
  let code := code.getD .normal
  (s, if code = .normal then [] else [code])

def onFail (k : ℕ) (code : Option CloseStatus) (s : Signal) : Signal × List CloseStatus :=
  let s := { s with attempts := s.attempts.erase k, conHdl := none, conState := .closed }
  if s.reconnMade < s.reconnAttempts then
    ({ s with
      reconnTimer := true
      -- resetting the pointer destroys an older timer, which aborts its waits
      waits := s.waits.map Wait.cancel ++ [.armed s.nextDelay] }, [])
  else (s, [code.getD .abnormalClose])

def timeoutReconnect (s : Signal) : Signal :=
  if s.conState = .closed then
    { s with
      conState := .opening
      reconnMade := s.reconnMade + 1
      connects := s.connects + 1 }
  else s

/-- Nothing is left for the run loop to do. -/
def drained (s : Signal) : Bool :=
  s.connects = 0 ∧ s.closes = [] ∧ s.attempts = [] ∧ s.live = [] ∧ s.waits = []

/-- One handler of the run loop, a no-op where it is not due. -/
def net (s : Signal) (a : NetAction) : Signal × List CloseStatus :=
  if s.running then
    match a with
    | .connectInternal ok => (if 0 < s.connects then s.connectInternal ok else s, [])
    | .closeInternal => (if s.closes = [] then s else s.closeInternal, [])
    | .onOpen k => (if k ∈ s.attempts then s.onOpen k else s, [])
    | .onFail k code => if k ∈ s.attempts then s.onFail k code else (s, [])
    | .onClose k code => if k ∈ s.live then s.onClose k code else (s, [])
    | .expire i =>
      match s.waits[i]? with
      | some (.armed _) => ({ s with waits := s.waits.set i .expired }, [])
      | _ => (s, [])
    | .timeoutReconnect i =>
      match s.waits[i]? with
      | some .expired => (timeoutReconnect { s with waits := s.waits.eraseIdx i }, [])
      | some .aborted => ({ s with waits := s.waits.eraseIdx i }, [])
      | _ => (s, [])
    | .exit => (if s.drained then { s with running := false } else s, [])
  else (s, [])

inductive Action where
  | setReconnectAttempts (attempts : ℕ)
  | setReconnectDelay (millis : ℕ)
  | setReconnectDelayMax (millis : ℕ)
  | openWith (id password : String)
  | close
  | syncClose
  | joined
  | net (a : NetAction)
  deriving DecidableEq, Repr

/-- The user thread makes no call while it waits in a join. -/
def step (s : Signal) : Action → Signal
  | .setReconnectAttempts attempts => s.setReconnectAttempts attempts
  | .setReconnectDelay millis => s.setReconnectDelay millis
  | .setReconnectDelayMax millis => s.setReconnectDelayMax millis
  | .openWith id password => if s.joining = none then s.openWith id password else s
  | .close => if s.joining = none then s.close else s
  | .syncClose => if s.joining = none then s.syncClose else s
  | .joined => if s.running then s else s.joined
  | .net a => (s.net a).1

end Signal

end PeerApi
