import PeerApi.Session.World
import PeerApi.Base.Run

/-! The handlers of `Control`: the calls of its `PeerControl` objects, the closing
of peers, the commands of the signal server, and the messages of the webrtc
thread's queue. One step of the world is one call of the user, one message of the
server, one step of the network thread, one message of the queue, or one WebRTC
callback. Objects that nothing refers to any more are released at the end of the
step: a control that no message, no session and not even itself holds, and a
`PeerControl` that neither `peers_` nor a pending description request holds. -/

namespace PeerApi.World

open Base

variable (env : Env)

/-! ### Calls of a `PeerControl` -/

/-- `Control::OnPeerClose` on the webrtc thread. -/
def onPeerClose (c : ℕ) (source : Option ℕ) (peerId : String) (code : CloseCode)
    (w : World) : World :=
  w.observeIfSet env c source (.close peerId code "")

/-- A call of instance `x` on its `PeerObserver`. -/
def perform (x : ℕ) (w : World) (e : Effect) : World :=
  if w.fault.isSome then w
  else
    let c := (w.insts x).control
    let reach (f : World → World) := if (w.controls c).destroyed then w.crash .danglingControl else f w
    match e with
    | .sendCommand peerId command data => reach (·.sendCommand (some x) peerId command data)
    | .closePeer peerId code => reach (·.closePeerQueued c peerId code (some x))
    | .onPeerConnect peerId => reach (·.observeIfSet env c (some x) (.connect peerId))
    | .onPeerClose peerId code => reach (·.onPeerClose env c (some x) peerId code)
    | .onPeerMessage peerId data => reach (·.observeIfSet env c (some x) (.message peerId data))
    | .onPeerWritable peerId => reach (·.observeIfSet env c (some x) (.writable peerId))
    | .crash f => w.crash f
    | _ => w

/-- Replace instance `x` by the result of one of its operations and perform the
effects. -/
def runPeer (x : ℕ) (r : PeerControl × List Effect) (w : World) : World :=
  r.2.foldl (perform env x) (w.setInst x { r.1 with log := r.1.log ++ r.2 })

/-! ### Closing -/

/-- `Control::ClosePeer` on the webrtc thread. -/
def closePeer (c : ℕ) (code : CloseCode) (w : World) (peerId : String) : World :=
  match (w.controls c).peers.find? peerId with
  | none => w
  | some x =>
    let w := w.modifyControl c fun k => { k with peers := k.peers.erase peerId }
    let r := (w.insts x).close code (env.onRelease x)
    (w.runPeer env x (r.1, .removed :: r.2)).leaveChannel peerId

/-- `Control::Close` on the webrtc thread. -/
def close (c : ℕ) (code : CloseCode) (w : World) : World :=
  let peerIds := (w.controls c).peers.entries.map fun e => (w.insts e.2).remoteId
  let w := peerIds.foldl (closePeer env c code) w
  w.observeIfSet env c none (.close (w.controls c).peerName code "")

/-! ### Commands of the signal server -/

/-- `Control::OnOpen`. -/
def onOpen (c : ℕ) (data : Json) (w : World) : World :=
  match env.rtc.getBoolFromJsonObject data "result" with
  | some true =>
    match env.rtc.getStringFromJsonObject data "session_id" with
    | none => w
    | some sessionId =>
      let w := w.modifyControl c fun k => { k with sessionId := sessionId }
      w.createChannel (w.controls c).peerName
  | _ => w

/-- The optional description of a refusal. -/
def refusal (data : Json) : String :=
  (env.rtc.getStringFromJsonObject data "desc").getD "Unknown reason"

def onChannelCreate (c : ℕ) (data : Json) (w : World) : World :=
  match env.rtc.getBoolFromJsonObject data "result" with
  | none => w.observe env c none (.close (w.controls c).peerName .signalError "")
  | some result =>
    match env.rtc.getStringFromJsonObject data "name" with
    | none => w.observe env c none (.close (w.controls c).peerName .signalError "")
    | some peerId =>
      if result then w.observe env c none (.open peerId)
      else w.observe env c none (.close peerId .signalError (refusal env data))

def onChannelJoin (c : ℕ) (data : Json) (w : World) : World :=
  match env.rtc.getBoolFromJsonObject data "result" with
  | none => w.observe env c none (.close "" .signalError "")
  | some result =>
    match env.rtc.getStringFromJsonObject data "name" with
    | none => w.observe env c none (.close "" .signalError "")
    | some peerId =>
      if result then w
      else w.observe env c none (.close peerId .signalError (refusal env data))

/-- Register a started `PeerControl`: `peers_.insert` keeps an older entry. -/
def register (c : ℕ) (p : PeerControl) (w : World) : World :=
  { w.setInst w.nextInst p with nextInst := w.nextInst + 1 }.modifyControl c fun k =>
    { k with peers := k.peers.insert p.remoteId w.nextInst }

/-- A `PeerControl` whose `Initialize` failed: it is dropped and reported. -/
def reject (c : ℕ) (p : PeerControl) (w : World) : World :=
  onPeerClose env c none p.remoteId .abnormal
    { w.setInst w.nextInst p with nextInst := w.nextInst + 1 }

/-- The object that both handlers make for a remote id, and whether it is usable. -/
def newPeer (c : ℕ) (remoteId : String) (w : World) : PeerControl × Bool :=
  (PeerControl.new c (w.controls c).peerName remoteId).initializePeer (env.initOutcome w.nextInst)

/-- The loop of `Control::CreateOffer`. -/
def createOffers (c : ℕ) : List (Option Json) → World → World
  | [], w => w
  | item :: items, w =>
    match item.bind env.rtc.getStringFromJson with
    | none => w
    | some remoteId =>
      let r := newPeer env c remoteId w
      if r.2 then createOffers c items (w.register c r.1.createOffer)
      else w.reject env c r.1

def createOffer (c : ℕ) (data : Json) (w : World) : World :=
  match env.rtc.getValueFromJsonObject data "peers" with
  | none => w
  | some peers => createOffers env c (env.rtc.items peers) w

def receiveOfferSdp (c : ℕ) (peerId : String) (data : Json) (origin : Option ℕ)
    (w : World) : World :=
  match env.rtc.getStringFromJsonObject data "sdp" with
  | none => w
  | some sdp =>
    let r := newPeer env c peerId w
    if r.2 then w.register c (r.1.receiveOfferSdp sdp origin) else w.reject env c r.1

def receiveAnswerSdp (c : ℕ) (peerId : String) (data : Json) (origin : Option ℕ)
    (w : World) : World :=
  match env.rtc.getStringFromJsonObject data "sdp" with
  | none => w
  | some sdp =>
    match (w.controls c).peers.find? peerId with
    | none => w
    | some x => w.runPeer env x ((w.insts x).receiveAnswerSdp sdp origin)

def addIceCandidate (c : ℕ) (peerId : String) (data : Json) (w : World) : World :=
  match env.rtc.getStringFromJsonObject data "sdp_mid",
      env.rtc.getIntFromJsonObject data "sdp_mline_index",
      env.rtc.getStringFromJsonObject data "candidate" with
  | some sdpMid, some sdpMlineIndex, some candidate =>
    match (w.controls c).peers.find? peerId with
    | none => w
    | some x => w.runPeer env x ((w.insts x).addIceCandidate sdpMid sdpMlineIndex candidate)
  | _, _, _ => w

/-- `Control::OnCommandReceived`. -/
def onCommandReceived (c : ℕ) (message : Json) (origin : Option ℕ) (w : World) : World :=
  match env.rtc.getStringFromJsonObject message "command",
      env.rtc.getValueFromJsonObject message "data" with
  | some command, some data =>
    let peerId := (env.rtc.getStringFromJsonObject message "peer_id").getD ""
    if command = "open" then w.onOpen env c data
    else if command = "channelcreate" then w.onChannelCreate env c data
    else if command = "channeljoin" then w.onChannelJoin env c data
    else if command = "channelleave" then w
    else if command = "peerclosed" then w.closePeer env c .normal peerId
    else if command = "createoffer" then w.createOffer env c data
    else if command = "offersdp" then w.receiveOfferSdp env c peerId data origin
    else if command = "answersdp" then w.receiveAnswerSdp env c peerId data origin
    else if command = "ice_candidate" then w.addIceCandidate env c peerId data
    else w
  | _, _ => w

/-! ### The thread queue -/

/-- `Control::OnMessage`. -/
def onMessage (w : World) (m : Message) : World :=
  let code := m.data.dataInt32.getD env.indeterminate
  match m.messageId with
  | .commandReceived => w.onCommandReceived env m.handler m.data.dataJson m.origin
  | .close => w.close env m.handler code
  | .closePeer => w.closePeer env m.handler code m.data.dataString
  | .onPeerClose => w.onPeerClose env m.handler none m.data.dataString code
  | .onSignalConnectionClose => w.close env m.handler code

/-- Take the next message from the queue and dispatch it. -/
def process (w : World) : World :=
  match w.queue with
  | [] => w
  | m :: queue => onMessage env { w with queue := queue } m

/-! ### Releasing objects -/

/-- Something still holds the control. -/
def controlHeld (w : World) (c : ℕ) : Bool :=
  w.control = some c || (w.controls c).ref || w.queue.any fun m => m.handler = c && m.data.ref

/-- The destructor of every control that nothing holds: it clears `peers_` and the
messages that are still posted to it. -/
def releaseControls (w : World) : World :=
  let dead c := decide (c < w.nextControl) && !(w.controls c).destroyed && !w.controlHeld c
  { w with
    controls := fun c =>
      if dead c then { w.controls c with destroyed := true, peers := ∅ } else w.controls c
    queue := w.queue.filter fun m => !dead m.handler }

/-- Something still holds the instance. -/
def instHeld (w : World) (x : ℕ) : Bool :=
  (w.insts x).pending.isSome ||
    (w.controls (w.insts x).control).peers.entries.any fun e => e.2 = x

def releaseInsts (w : World) : World :=
  { w with
    insts := fun x =>
      if x < w.nextInst ∧ w.instHeld x = false then { w.insts x with released := true }
      else w.insts x }

/-! ### Steps -/

inductive Action where
  | api (a : Api)
  | command (message : Json) (origin : Option ℕ)
  | net (a : Signal.NetAction)
  | process
  | callback (x : ℕ) (cb : Callback)

def act (w : World) : Action → World
  | .api a => w.api env a
  | .command message origin => w.signalOnCommandReceived message origin
  | .net a => w.net a
  | .process => w.process env
  | .callback x cb =>
    if x < w.nextInst ∧ (w.insts x).released = false then
      w.runPeer env x ((w.insts x).callback cb)
    else w

/-- Nothing happens after a crash. -/
def step (w : World) (a : Action) : World :=
  if w.fault.isSome then w else (w.act env a).releaseControls.releaseInsts

/-- A run after which the signal connection of the first session is open. -/
def sessionOpen : List Action :=
  [.api .open, .net (.connectInternal true), .net (.onOpen 0)]

end PeerApi.World
