import PeerApi.Base.OrderedMap
import PeerApi.Connection.PeerControl
import PeerApi.Signal.Connection
import Mathlib.Data.String.Basic
import Mathlib.Logic.Function.Basic

/-! The state of one `Peer` with everything it owns: the controls of its past
and present sessions, their `PeerControl` objects, the queue of the webrtc thread
and the signal connection; and the calls of the public interface. Controls and
`PeerControl` objects are numbered in the order of their creation, so a number is
an object identity and outlives the object.

What lies outside the program is the environment: the rtc conversions, the
outcomes of WebRTC calls, the handlers of the user, and the steps of the network
thread during a join. Handlers may make any call at any event: they see the whole
history of events and answer with a list of calls. -/

namespace PeerApi

open Base

inductive MessageId where
  | commandReceived
  | close
  | closePeer
  | onPeerClose
  | onSignalConnectionClose
  deriving DecidableEq, Repr

/-- `ControlMessageData`. Its constructors leave `data_int32_` uninitialised where
it is `none` here; `ref` says whether `ref_` holds the control. -/
structure MessageData where
  dataJson : Json := .null
  dataString : String := ""
  dataInt32 : Option CloseCode := none
  ref : Bool := false

/-- A posted message. `origin` is the instance it is about and is not part of the
message: for a close request the object it was meant for, for a command the
`PeerControl` of the sender. -/
structure Message where
  handler : ℕ
  messageId : MessageId
  data : MessageData
  origin : Option ℕ

structure Control where
  /-- `peer_` is set. -/
  observer : Bool
  /-- `ref_` is set. -/
  ref : Bool
  /-- `webrtc_thread_` is set. -/
  thread : Bool
  destroyed : Bool
  peerName : String
  userId : String
  sessionId : String
  peers : OrderedMap String ℕ

/-- A control that has not been made yet. -/
def Control.unborn : Control := ⟨false, false, false, false, "", "", "", ∅⟩

inductive Event where
  | open (peerId : String)
  | close (peerId : String) (code : CloseCode) (desc : String)
  | connect (peerId : String)
  | message (peerId : String) (data : List UInt8)
  | writable (peerId : String)
  deriving DecidableEq, Repr

def Event.name : Event → String
  | .open _ => "open"
  | .close _ _ _ => "close"
  | .connect _ => "connect"
  | .message _ _ => "message"
  | .writable _ => "writable"

/-- A call of a control on its `ControlObserver`, or of the peer on a registered
handler, with the instance that raised it; a handler runs in the session that is
installed at that moment. `closed` is the return from the local close of a session,
with the `control_` that is then installed. -/
inductive Obs where
  | observer (control : ℕ) (source : Option ℕ) (e : Event)
  | handler (session : Option ℕ) (source : Option ℕ) (e : Event)
  | closed (session : Option ℕ) (source : Option ℕ) (control : Option ℕ)
  deriving DecidableEq, Repr

inductive Api where
  | open
  | close (peerId : String)
  | connect (peerId : String)
  | send (peerId : String) (data : List UInt8) (wait : Bool)
  deriving DecidableEq, Repr

structure Env where
  rtc : RtcJson
  /-- `peer_id_`, made up by the constructor when the user gives none. -/
  peerId : String
  peerId_ne : peerId ≠ ""
  signalId : String
  signalPassword : String
  registered : String → Bool
  handler : List Obs → List Api
  createPeerFactory : ℕ → Bool
  initOutcome : ℕ → InitOutcome
  onRelease : ℕ → List Callback
  /-- The steps of the network thread during the n-th join. -/
  join : ℕ → List Signal.NetAction
  /-- The result of the n-th `channel_->Send`, and of waiting for its buffer. -/
  accepted : ℕ → Bool
  bufferDrained : ℕ → Bool
  /-- What reading an uninitialised `data_int32_` gives. -/
  indeterminate : CloseCode

/-- An environment without surprises: every call succeeds, a release reports
nothing, and the handlers of the user make no calls. -/
def Env.idle (peerId : String) (h : peerId ≠ "") : Env where
  rtc := .exact
  peerId := peerId
  peerId_ne := h
  signalId := "user"
  signalPassword := "password"
  registered _ := true
  handler _ := []
  createPeerFactory _ := true
  initOutcome _ := ⟨true, true⟩
  onRelease _ := []
  join _ := []
  accepted _ := true
  bufferDrained _ := true
  indeterminate := .normal

/-- The same, and `SyncClose` waits for the close handshake of the connection, which
is the n-th when every session connects once. -/
def Env.polite (peerId : String) (h : peerId ≠ "") : Env :=
  { Env.idle peerId h with join := fun n => [.closeInternal, .onClose n none, .exit] }

theorem Env.alone_ne : "a" ≠ "" := by decide

/-- The idle environment of a peer named "a". -/
def Env.alone : Env := .idle "a" Env.alone_ne

/-- A command as the signal server relays it. -/
def serverMessage (command peerId : String) (data : Json) : Json :=
  .obj [("command", .str command), ("peer_id", .str peerId), ("data", data)]

/-- The server asks for offers to the given peers. -/
def createOfferMessage (peerIds : List String) : Json :=
  serverMessage "createoffer" "" (.obj [("peers", .arr (peerIds.map .str))])

/-- The reply of the server to the creation of a channel. -/
def channelCreateMessage (name : String) (result : Bool) : Json :=
  serverMessage "channelcreate" "" (.obj [("name", .str name), ("result", .bool result)])

/-- A command given to `Signal::SendCommand`, with the instance it comes from. -/
structure SentCommand where
  source : Option ℕ
  channel : String
  command : String
  data : Json
  /-- `Signal::SendCommand` wrote the command. -/
  written : Bool

/-- Data that `channel_->Send` of an instance was called with, and its answer. -/
structure HandedData where
  instance_ : ℕ
  data : List UInt8
  accepted : Bool
  deriving DecidableEq, Repr

structure World where
  closeOnce : Bool
  /-- `control_`. -/
  control : Option ℕ
  /-- `signal_`. -/
  signal : Option Signal
  controls : ℕ → Control
  nextControl : ℕ
  insts : ℕ → PeerControl
  nextInst : ℕ
  queue : List Message
  obs : List Obs
  commands : List SentCommand
  handed : List HandedData
  returned : List Bool
  joins : ℕ
  fault : Option Fault

namespace World

def init : World where
  closeOnce := false
  control := none
  signal := none
  controls _ := .unborn
  nextControl := 0
  insts _ := .new 0 "" ""
  nextInst := 0
  queue := []
  obs := []
  commands := []
  handed := []
  returned := []
  joins := 0
  fault := none

def crash (f : Fault) (w : World) : World := { w with fault := some f }

def modifyControl (c : ℕ) (g : Control → Control) (w : World) : World :=
  { w with controls := Function.update w.controls c (g (w.controls c)) }

def setInst (x : ℕ) (p : PeerControl) (w : World) : World :=
  { w with insts := Function.update w.insts x p }

/-- `webrtc_thread_->Post`, with the reference the message takes from `ref_`. -/
def post (c : ℕ) (id : MessageId) (data : MessageData) (origin : Option ℕ) (w : World) : World :=
  if (w.controls c).thread then
    { w with queue := w.queue ++ [⟨c, id, { data with ref := (w.controls c).ref }, origin⟩] }
  else w.crash .noThread

/-! ### The signal connection -/

/-- The controls connected to the signals of `Signal`, in the order they were. -/
def subscribed (w : World) : List ℕ :=
  (List.range w.nextControl).filter fun c => !(w.controls c).destroyed

def onSignalCommandReceived (message : Json) (origin : Option ℕ) (w : World) (c : ℕ) : World :=
  w.post c .commandReceived { dataJson := message } origin

def onSignalConnectionClosed (code : CloseStatus) (w : World) (c : ℕ) : World :=
  if code ≠ .normal then
    w.post c .onSignalConnectionClose { dataInt32 := some .signalError } none
  else w

def signalOnCommandReceived (message : Json) (origin : Option ℕ) (w : World) : World :=
  w.subscribed.foldl (onSignalCommandReceived message origin) w

def signalOnClosed (w : World) (code : CloseStatus) : World :=
  w.subscribed.foldl (onSignalConnectionClosed code) w

def net (w : World) (a : Signal.NetAction) : World :=
  match w.signal with
  | none => w
  | some s => (s.net a).2.foldl signalOnClosed { w with signal := some (s.net a).1 }

/-- The user thread waits until the run loop has ended, if ever. -/
def join (env : Env) (w : World) : World :=
  let w := (env.join w.joins).foldl net { w with joins := w.joins + 1 }
  match w.signal with
  | none => w
  | some s => if s.running then w.crash .deadlock else { w with signal := some s.joined }

def signalCall (env : Env) (f : Signal → Signal) (w : World) : World :=
  match w.signal with
  | none => w
  | some s =>
    let w := { w with signal := some (f s) }
    if (f s).joining.isSome then w.join env else w

/-- `signal_->SyncClose()`. -/
def signalSyncClose (env : Env) (w : World) : World :=
  match w.signal with
  | none => w.crash .nullSignal
  | some _ => w.signalCall env (·.syncClose)

/-- `Control::SendCommand`. -/
def sendCommand (source : Option ℕ) (channel command : String) (data : Json) (w : World) : World :=
  match w.signal with
  | none => w
  | some s =>
    let s' := s.sendCommand channel command data
    { w with
      signal := some s'
      commands := w.commands ++
        [⟨source, channel, command, data, s.sent.length < s'.sent.length⟩] }

def createChannel (name : String) (w : World) : World :=
  w.sendCommand none name "createchannel" (.obj [("name", .str name)])

def joinChannel (name : String) (w : World) : World :=
  w.sendCommand none name "joinchannel" (.obj [("name", .str name)])

def leaveChannel (name : String) (w : World) : World :=
  w.sendCommand none name "leavechannel" (.obj [("name", .str name)])

/-! ### The public interface -/

/-- `Control::Close` and `Control::ClosePeer` with forced queuing. -/
def closeQueued (c : ℕ) (code : CloseCode) (w : World) : World :=
  w.post c .close { dataInt32 := some code } none

def closePeerQueued (c : ℕ) (peerId : String) (code : CloseCode) (origin : Option ℕ)
    (w : World) : World :=
  w.post c .closePeer { dataString := peerId, dataInt32 := some code } origin

/-- The constructor of `Control` and `RegisterObserver`. -/
def newControl (w : World) : World :=
  { w with nextControl := w.nextControl + 1, control := some w.nextControl }.modifyControl
    w.nextControl fun k => { k with observer := true, ref := true }

/-- `Peer::Open`. -/
def peerOpen (env : Env) (w : World) : World :=
  if w.control.isSome then w
  else
    let c := w.nextControl
    let w := newControl { w with signal := some (w.signal.getD .init) }
    if env.createPeerFactory c then
      (w.modifyControl c fun k =>
        { k with thread := true, peerName := env.peerId, userId := env.signalId }).signalCall env
        (·.openWith env.signalId env.signalPassword)
    else { w with control := none }

/-- `Peer::Close`. -/
def peerClose (env : Env) (peerId : String) (w : World) : World :=
  match w.control with
  | none => w.crash .nullControl
  | some c =>
    if peerId = "" ∨ peerId = env.peerId then
      (w.closeQueued c .normal).signalSyncClose env
    else w.closePeerQueued c peerId .normal ((w.controls c).peers.find? peerId)

/-- `Peer::Connect`. -/
def peerConnect (peerId : String) (w : World) : World :=
  match w.control with
  | none => w.crash .nullControl
  | some _ => w.joinChannel peerId

/-- Log the call of `channel_->Send`, if there was one. -/
def handOver (x : ℕ) (data : List UInt8) (answer : Option Bool) (w : World) : World :=
  { w with handed := w.handed ++ (answer.map fun accepted => ⟨x, data, accepted⟩).toList }

/-- `Control::Send` and `Control::SyncSend`. -/
def controlSend (env : Env) (c : ℕ) (peerId : String) (data : List UInt8) (wait : Bool)
    (w : World) : World :=
  match (w.controls c).peers.find? peerId with
  | none => { w with returned := w.returned ++ [!wait] }
  | some x =>
    let accepted := env.accepted w.handed.length
    let drained := env.bufferDrained w.handed.length
    match if wait then (w.insts x).syncSend accepted drained else (w.insts x).send accepted with
    | none => w.crash .nullDataChannel
    | some r =>
      let w := w.handOver x data r.answer
      { w with returned := w.returned ++ [if wait then r.result else true] }

/-- `Peer::Send`. -/
def peerSend (env : Env) (peerId : String) (data : List UInt8) (wait : Bool) (w : World) : World :=
  match w.control with
  | none => w.crash .nullControl
  | some c => w.controlSend env c peerId data wait

/-- One call of the public interface; nothing runs after a crash. -/
def api (env : Env) (w : World) (a : Api) : World :=
  if w.fault.isSome then w
  else
    match a with
    | .open => w.peerOpen env
    | .close peerId => w.peerClose env peerId
    | .connect peerId => w.peerConnect peerId
    | .send peerId data wait => w.peerSend env peerId data wait

/-! ### Events -/

/-- `CallEventHandler`, when a handler is registered. -/
def callEventHandler (env : Env) (source : Option ℕ) (e : Event) (w : World) : World :=
  if env.registered e.name then
    let w := { w with obs := w.obs ++ [.handler w.control source e] }
    (env.handler w.obs).foldl (api env) w
  else w

/-- `UnregisterObserver` and `control_.reset()`. -/
def dropControl (w : World) : World :=
  if w.fault.isSome then w
  else
    match w.control with
    | none => w.crash .nullControl
    | some c => { w.modifyControl c fun k => { k with observer := false, ref := false } with
        control := none }

/-- Log the return from the local close. -/
def logClosed (session source : Option ℕ) (w : World) : World :=
  if w.fault.isSome then w else { w with obs := w.obs ++ [.closed session source w.control] }

/-- `Peer::OnClose`. -/
def peerOnClose (env : Env) (source : Option ℕ) (peerId : String) (code : CloseCode)
    (desc : String) (w : World) : World :=
  if peerId = env.peerId then
    if w.closeOnce then w
    else
      (callEventHandler env source (.close peerId code desc)
        { w with closeOnce := true }).dropControl.logClosed w.control source
  else w.callEventHandler env source (.close peerId code desc)

/-- `Peer::OnOpen`, `OnClose`, `OnConnect`, `OnMessage` and `OnWritable`. -/
def notify (env : Env) (source : Option ℕ) (e : Event) (w : World) : World :=
  match e with
  | .open peerId => callEventHandler env source (.open peerId) { w with closeOnce := false }
  | .close peerId code desc => w.peerOnClose env source peerId code desc
  | e => w.callEventHandler env source e

/-- A call through `peer_`, which the caller has not tested. -/
def observe (env : Env) (c : ℕ) (source : Option ℕ) (e : Event) (w : World) : World :=
  if w.fault.isSome then w
  else if (w.controls c).observer then
    notify env source e { w with obs := w.obs ++ [.observer c source e] }
  else w.crash .nullObserver

/-- A call through `peer_` that is skipped when it is null. -/
def observeIfSet (env : Env) (c : ℕ) (source : Option ℕ) (e : Event) (w : World) : World :=
  if (w.controls c).observer then w.observe env c source e else w

end World

end PeerApi
