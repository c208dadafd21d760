import PeerApi.Connection.DataChannel

/-! One connection to a remote peer. Each operation and each WebRTC callback of
`PeerControl` is a function from the object to the object after it and the
effects it has on its `PeerObserver`, in order. The observer never calls back into
the same object, so performing the effects afterwards is performing them in
place. Callbacks that WebRTC runs while `Close` releases the peer connection are a
parameter of `close`.

Some fields and effects record what happened and are never read by the code:
the role an object was started in, the instance whose offer it answers, whether
its channels have met, whether it has been released, and the effects so far. -/

namespace PeerApi

inductive PeerState where
  | connecting
  | open
  | closing
  | closed
  deriving DecidableEq, Repr

/-- The two kinds of description `CreateOffer` and `CreateAnswer` ask for. -/
inductive SdpType where
  | offer
  | answer
  deriving DecidableEq, Repr

/-- Undefined behaviour the process does not survive. -/
inductive Fault where
  | nullObserver
  | nullControl
  | nullSignal
  | nullPeerConnection
  | nullDataChannel
  | danglingControl
  | noThread
  | deadlock
  deriving DecidableEq, Repr

/-- The calls on `PeerObserver`; `closePeer` is always made with forced queuing.
The last five are a crash and marks without effect. -/
inductive Effect where
  | sendCommand (peerId command : String) (data : Json)
  | closePeer (peerId : String) (code : CloseCode)
  | onPeerConnect (peerId : String)
  | onPeerClose (peerId : String) (code : CloseCode)
  | onPeerMessage (peerId : String) (data : List UInt8)
  | onPeerWritable (peerId : String)
  | crash (fault : Fault)
  /-- `Control::ClosePeer` erased the object from `peers_`. -/
  | removed
  /-- `Close` passed its guard. -/
  | closing
  /-- `OnPeerOpened` found both channels open, in the given state. -/
  | opened (state : PeerState)
  /-- An answer of the given remote instance was applied. -/
  | answered (origin : Option ℕ)

structure PeerControl where
  /-- `control_`. -/
  control : ℕ
  localId : String
  remoteId : String
  state : PeerState
  /-- `peer_connection_` is not null. -/
  peerConnection : Bool
  localDataChannel : Option DataChannel
  remoteDataChannel : Option DataChannel
  /-- The description requested from WebRTC, which holds a reference until then. -/
  pending : Option SdpType
  localDescriptions : List (SdpType × String)
  remoteDescriptions : List (SdpType × String)
  candidates : List (String × Int × String)
  role : Option SdpType
  origin : Option ℕ
  /-- A channel has reported `kOpen` while the other one was open. -/
  met : Bool
  released : Bool
  log : List Effect

/-- `webrtc::PeerConnectionInterface::IceConnectionState`. -/
inductive IceState where
  | new
  | checking
  | connected
  | completed
  | failed
  | disconnected
  | closed
  deriving DecidableEq, Repr

inductive Side where
  | localSide
  | remoteSide
  deriving DecidableEq, Repr

def Side.other : Side → Side
  | .localSide => .remoteSide
  | .remoteSide => .localSide

/-- What WebRTC does to one object. `channelState` and `bufferedAmount` change a
channel without a report; `onStateChange` brings the channel to the given state,
if it is not there yet, and reports it. -/
inductive Callback where
  | onSuccess (sdp : Option String)
  | onFailure
  | onIceConnectionChange (state : IceState)
  | onIceCandidate (sdpMid : String) (sdpMlineIndex : Int) (sdp : Option String)
  /-- A channel of the remote side; `oldCloses` says whether closing the channel
  it replaces reports `kClosed` at once. -/
  | onDataChannel (live : DataState) (bufferedAmount : ℕ) (oldCloses : Bool)
  | channelState (side : Side) (state : DataState)
  | onStateChange (side : Side) (state : DataState)
  | onMessage (side : Side) (data : List UInt8)
  | bufferedAmount (side : Side) (amount : ℕ)
  | onBufferedAmountChange (side : Side)
  deriving DecidableEq, Repr

/-- The outcome of creating the peer connection and the local data channel. -/
structure InitOutcome where
  createPeerConnection : Bool
  createDataChannel : Bool
  deriving DecidableEq, Repr

def InitOutcome.ok (o : InitOutcome) : Bool := o.createPeerConnection && o.createDataChannel

namespace PeerControl

def new (control : ℕ) (localId remoteId : String) : PeerControl where
  control := control
  localId := localId
  remoteId := remoteId
  state := .closed
  peerConnection := false
  localDataChannel := none
  remoteDataChannel := none
  pending := none
  localDescriptions := []
  remoteDescriptions := []
  candidates := []
  role := none
  origin := none
  met := false
  released := false
  log := []

def deletePeerConnection (p : PeerControl) : PeerControl :=
  { p with remoteDataChannel := none, localDataChannel := none, peerConnection := false }

def initializePeer (o : InitOutcome) (p : PeerControl) : PeerControl × Bool :=
  if o.createPeerConnection then
    let p := { p with peerConnection := true }
    if o.createDataChannel then
      ({ p with localDataChannel := some (.observe .connecting 0) }, true)
    else (p.deletePeerConnection, false)
  else (p.deletePeerConnection, false)

/-- `CreateOffer`, on an object whose `Initialize` succeeded. -/
def createOffer (p : PeerControl) : PeerControl :=
  { p with state := .connecting, pending := some .offer, role := some .offer }

def createAnswer (p : PeerControl) : PeerControl :=
  { p with state := .connecting, pending := some .answer, role := some .answer }

def setRemoteDescription (type : SdpType) (sdp : String) (p : PeerControl) : PeerControl :=
  { p with remoteDescriptions := p.remoteDescriptions ++ [(type, sdp)] }

/-- `ReceiveOfferSdp`, on an object whose `Initialize` succeeded. -/
def receiveOfferSdp (sdp : String) (origin : Option ℕ) (p : PeerControl) : PeerControl :=
  createAnswer { p.setRemoteDescription .offer sdp with origin := origin }

def receiveAnswerSdp (sdp : String) (origin : Option ℕ) (p : PeerControl) :
    PeerControl × List Effect :=
  if p.peerConnection then (p.setRemoteDescription .answer sdp, [.answered origin])
  else (p, [.crash .nullPeerConnection])

def addIceCandidate (sdpMid : String) (sdpMlineIndex : Int) (candidate : String)
    (p : PeerControl) : PeerControl × List Effect :=
  if p.peerConnection then
    ({ p with candidates := p.candidates ++ [(sdpMid, sdpMlineIndex, candidate)] }, [])
  else (p, [.crash .nullPeerConnection])

/-- What `Send` comes to, absent when it dereferences a null channel. -/
def send (accepted : Bool) (p : PeerControl) : Option Sending :=
  if p.state = .open then p.localDataChannel.map (·.send accepted) else some ⟨false, none⟩

def syncSend (accepted drained : Bool) (p : PeerControl) : Option Sending :=
  if p.state = .open then p.localDataChannel.map (·.syncSend accepted drained)
  else some ⟨false, none⟩

def setLocalDescription (type : SdpType) (sdp : String) (p : PeerControl) : PeerControl :=
  if p.peerConnection then { p with localDescriptions := p.localDescriptions ++ [(type, sdp)] }
  else p

def onPeerDisconnected (p : PeerControl) : List Effect :=
  if p.state = .closed then []
  else if p.state = .closing then []
  else [.closePeer p.remoteId .goingAway]

/-- Both channels exist and are open right now. -/
def bothOpen (p : PeerControl) : Bool :=
  match p.localDataChannel, p.remoteDataChannel with
  | some l, some r => l.live = .open && r.live = .open
  | _, _ => false

def onPeerOpened (p : PeerControl) : PeerControl × List Effect :=
  if p.bothOpen then
    ({ p with state := .open },
      [.opened p.state, .onPeerConnect p.remoteId, .onPeerWritable p.localId])
  else (p, [])

/-- The command that carries a description of the given type. -/
def descriptionCommand : SdpType → String
  | .offer => "offersdp"
  | .answer => "answersdp"

def onSuccess (sdp : Option String) (p : PeerControl) : PeerControl × List Effect :=
  match p.pending, sdp with
  | none, _ => (p, [])
  | some _, none => ({ p with pending := none }, [])
  | some type, some sdp =>
    let p := { p with pending := none }
    if p.state = .connecting then
      (p.setLocalDescription type sdp,
        [.sendCommand p.remoteId (descriptionCommand type) (.obj [("sdp", .str sdp)])])
    else (p, [])

def onIceConnectionChange (state : IceState) (p : PeerControl) : List Effect :=
  match state with
  | .closed => p.onPeerDisconnected
  | .disconnected => p.onPeerDisconnected
  | _ => []

def onIceCandidate (sdpMid : String) (sdpMlineIndex : Int) (sdp : Option String)
    (p : PeerControl) : List Effect :=
  match sdp with
  | none => []
  | some sdp =>
    [.sendCommand p.remoteId "ice_candidate" (.obj [("sdp_mid", .str sdpMid),
      ("sdp_mline_index", .int sdpMlineIndex), ("candidate", .str sdp)])]

/-- The replaced observer closes its channel while it is still attached. -/
def onDataChannel (live : DataState) (bufferedAmount : ℕ) (oldCloses : Bool) (p : PeerControl) :
    PeerControl × List Effect :=
  ({ p with remoteDataChannel := some { DataChannel.observe live bufferedAmount with
      replacedOpen := p.remoteDataChannel.any (·.cameOpen) } },
    match p.remoteDataChannel with
    | none => []
    | some old => if oldCloses && old.live ≠ .closed then p.onPeerDisconnected else [])

def channel (side : Side) (p : PeerControl) : Option DataChannel :=
  match side with
  | .localSide => p.localDataChannel
  | .remoteSide => p.remoteDataChannel

def setChannel (side : Side) (ch : DataChannel) (p : PeerControl) : PeerControl :=
  match side with
  | .localSide => { p with localDataChannel := some ch }
  | .remoteSide => { p with remoteDataChannel := some ch }

/-- The channel of the other side is open right now. -/
def otherOpen (side : Side) (p : PeerControl) : Bool :=
  (p.channel side.other).any fun ch => ch.live = .open

/-- `PeerDataChannelObserver::OnStateChange` of one channel, with the slot it
reaches. -/
def onStateChange (side : Side) (state : DataState) (p : PeerControl) :
    PeerControl × List Effect :=
  match p.channel side with
  | none => (p, [])
  | some ch =>
    -- a channel never goes back, so no such report arrives
    if ch.live.rank ≤ state.rank then
      let p := p.setChannel side (ch.advance state).onStateChange
      match state with
      | .open => { p with met := p.met || p.otherOpen side }.onPeerOpened
      | .closed => (p, p.onPeerDisconnected)
      | _ => (p, [])
    else (p, [])

/-- A channel delivers messages only while it is open. -/
def onMessage (side : Side) (data : List UInt8) (p : PeerControl) : List Effect :=
  match p.channel side with
  | none => []
  | some ch => if ch.live = .open then [.onPeerMessage p.remoteId data] else []

def onBufferedAmountChange (side : Side) (p : PeerControl) : List Effect :=
  match p.channel side with
  | none => []
  | some _ =>
    match p.localDataChannel with
    | none => [.crash .nullDataChannel]
    | some l => if l.isWritable then [.onPeerWritable p.remoteId] else []

def callback (p : PeerControl) : Callback → PeerControl × List Effect
  | .onSuccess sdp => p.onSuccess sdp
  | .onFailure => ({ p with pending := none }, [])
  | .onIceConnectionChange state => (p, p.onIceConnectionChange state)
  | .onIceCandidate sdpMid sdpMlineIndex sdp => (p, p.onIceCandidate sdpMid sdpMlineIndex sdp)
  | .onDataChannel live bufferedAmount oldCloses => p.onDataChannel live bufferedAmount oldCloses
  | .channelState side state =>
    match p.channel side with
    | none => (p, [])
    | some ch => (p.setChannel side (ch.advance state), [])
  | .onStateChange side state => p.onStateChange side state
  | .onMessage side data => (p, p.onMessage side data)
  | .bufferedAmount side amount =>
    match p.channel side with
    | none => (p, [])
    | some ch => (p.setChannel side { ch with bufferedAmount := amount }, [])
  | .onBufferedAmountChange side => (p, p.onBufferedAmountChange side)

def callbacks (p : PeerControl) : List Callback → PeerControl × List Effect
  | [] => (p, [])
  | cb :: cbs =>
    let r := p.callback cb
    let rest := r.1.callbacks cbs
    (rest.1, r.2 ++ rest.2)

/-- `Close`; `onRelease` are the callbacks made while the peer connection is
released. -/
def close (code : CloseCode) (onRelease : List Callback) (p : PeerControl) :
    PeerControl × List Effect :=
  if p.state = .closing ∨ p.state = .closed then (p, [])
  else
    let p := { p with state := .closing }
    let r :=
      if p.peerConnection then { p with peerConnection := false }.callbacks onRelease
      else (p, [])
    ({ r.1 with state := .closed }, .closing :: r.2 ++ [.onPeerClose p.remoteId code])

end PeerControl

end PeerApi
