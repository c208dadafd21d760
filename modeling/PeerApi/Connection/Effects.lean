import PeerApi.Connection.PeerControl

/-! What one operation of a `PeerControl` can change and which calls it can make.
Callbacks never touch the identity of the object, its peer connection or the
existence of its local channel, and the only state they enter is `pOpen`; every
call names the remote id of the object, and a close request is only made while
the object is neither closing nor closed. -/

namespace PeerApi

namespace PeerControl

/-- The two objects are the same connection of the same control. -/
structure SameIdentity (p q : PeerControl) : Prop where
  control : q.control = p.control
  localId : q.localId = p.localId
  remoteId : q.remoteId = p.remoteId
  role : q.role = p.role
  origin : q.origin = p.origin
  released : q.released = p.released

/-- What survives every callback. -/
structure Keeps (p q : PeerControl) : Prop where
  control : q.control = p.control
  localId : q.localId = p.localId
  remoteId : q.remoteId = p.remoteId
  role : q.role = p.role
  origin : q.origin = p.origin
  released : q.released = p.released
  log : q.log = p.log
  peerConnection : q.peerConnection = p.peerConnection
  localChannel : q.localDataChannel.isSome = p.localDataChannel.isSome
  pending : q.pending = p.pending ∨ q.pending = none
  state : q.state = p.state ∨ q.state = .open

theorem Keeps.refl (p : PeerControl) : Keeps p p :=
  ⟨rfl, rfl, rfl, rfl, rfl, rfl, rfl, rfl, rfl, Or.inl rfl, Or.inl rfl⟩

theorem Keeps.same {p q : PeerControl} (h : Keeps p q) : SameIdentity p q :=
  ⟨h.control, h.localId, h.remoteId, h.role, h.origin, h.released⟩

theorem Keeps.trans {p q r : PeerControl} (h : Keeps p q) (h' : Keeps q r) : Keeps p r where
  control := h'.control.trans h.control
  localId := h'.localId.trans h.localId
  remoteId := h'.remoteId.trans h.remoteId
  role := h'.role.trans h.role
  origin := h'.origin.trans h.origin
  released := h'.released.trans h.released
  log := h'.log.trans h.log
  peerConnection := h'.peerConnection.trans h.peerConnection
  localChannel := h'.localChannel.trans h.localChannel
  pending := by
    rcases h'.pending with h1 | h1
    · rw [h1]; exact h.pending
    · exact Or.inr h1
  state := by
    rcases h'.state with h1 | h1
    · rw [h1]; exact h.state
    · exact Or.inr h1

/-- An object that was started: it has its local channel, and any description it
still waits for is of the kind it was started with. -/
structure Started (p : PeerControl) : Prop where
  role : p.role.isSome = true
  localChannel : p.localDataChannel.isSome = true
  pending : ∀ t, p.pending = some t → p.role = some t

theorem Started.keeps {p q : PeerControl} (h : p.Started) (hk : Keeps p q) : q.Started where
  role := by rw [hk.role]; exact h.role
  localChannel := by rw [hk.localChannel]; exact h.localChannel
  pending t ht := by
    rw [hk.role]
    rcases hk.pending with hp | hp
    · exact h.pending t (hp ▸ ht)
    · rw [hp] at ht; cases ht

end PeerControl

/-- The calls that are in order for an object with the identity of `p`. -/
def Effect.Ok (p : PeerControl) : Effect → Prop
  | .sendCommand peerId command _ => peerId = p.remoteId ∧
      (command = "ice_candidate" ∨
        ∃ t, p.role = some t ∧ command = PeerControl.descriptionCommand t)
  | .closePeer peerId _ => peerId = p.remoteId
  | .onPeerConnect peerId => peerId = p.remoteId
  | .onPeerClose peerId _ => peerId = p.remoteId
  | .onPeerMessage peerId _ => peerId = p.remoteId
  | .onPeerWritable peerId => peerId = p.remoteId ∨ peerId = p.localId
  | .crash _ => False
  | _ => True

/-- A command has a name. -/
theorem Effect.Ok.command_ne {p : PeerControl} {peerId command : String} {data : Json}
    (h : (Effect.sendCommand peerId command data).Ok p) : command ≠ "" := by
  obtain ⟨-, rfl | ⟨t, -, rfl⟩⟩ := h
  · decide
  · cases t <;> decide

namespace PeerControl

theorem setChannel_keeps (p : PeerControl) (side : Side) (ch : DataChannel) {old : DataChannel}
    (h : p.channel side = some old) : Keeps p (p.setChannel side ch) := by
  cases side with
  | localSide =>
    simp only [channel] at h
    exact ⟨rfl, rfl, rfl, rfl, rfl, rfl, rfl, rfl, by simp [setChannel, h], Or.inl rfl, Or.inl rfl⟩
  | remoteSide => exact ⟨rfl, rfl, rfl, rfl, rfl, rfl, rfl, rfl, rfl, Or.inl rfl, Or.inl rfl⟩

theorem onPeerOpened_keeps (p : PeerControl) : Keeps p p.onPeerOpened.1 := by
  unfold onPeerOpened
  split_ifs
  · exact ⟨rfl, rfl, rfl, rfl, rfl, rfl, rfl, rfl, rfl, Or.inl rfl, Or.inr rfl⟩
  · exact Keeps.refl p

theorem meet_keeps (p : PeerControl) (met : Bool) : Keeps p { p with met := met } :=
  ⟨rfl, rfl, rfl, rfl, rfl, rfl, rfl, rfl, rfl, Or.inl rfl, Or.inl rfl⟩

theorem setLocalDescription_keeps (p : PeerControl) (t : SdpType) (sdp : String) :
    Keeps p (p.setLocalDescription t sdp) := by
  unfold setLocalDescription
  split_ifs
  · exact ⟨rfl, rfl, rfl, rfl, rfl, rfl, rfl, rfl, rfl, Or.inl rfl, Or.inl rfl⟩
  · exact Keeps.refl p

theorem clearPending_keeps (p : PeerControl) : Keeps p { p with pending := none } :=
  ⟨rfl, rfl, rfl, rfl, rfl, rfl, rfl, rfl, rfl, Or.inr rfl, Or.inl rfl⟩

theorem onSuccess_keeps (p : PeerControl) (sdp : Option String) : Keeps p (p.onSuccess sdp).1 := by
  unfold onSuccess
  split
  · exact Keeps.refl p
  · exact clearPending_keeps p
  · dsimp only
    split_ifs
    · exact (clearPending_keeps p).trans (setLocalDescription_keeps _ _ _)
    · exact clearPending_keeps p

theorem onStateChange_keeps (p : PeerControl) (side : Side) (state : DataState) :
    Keeps p (p.onStateChange side state).1 := by
  unfold onStateChange
  split
  · exact Keeps.refl p
  next ch hch =>
    split_ifs
    · have hs := setChannel_keeps p side (ch.advance state).onStateChange hch
      cases state with
      | «open» => exact (hs.trans (meet_keeps _ _)).trans (onPeerOpened_keeps _)
      | connecting => exact hs
      | closing => exact hs
      | closed => exact hs
    · exact Keeps.refl p

theorem callback_keeps (p : PeerControl) (cb : Callback) : Keeps p (p.callback cb).1 := by
  cases cb with
  | onSuccess sdp => exact onSuccess_keeps p sdp
  | onFailure => exact clearPending_keeps p
  | onIceConnectionChange state => exact Keeps.refl p
  | onIceCandidate sdpMid sdpMlineIndex sdp => exact Keeps.refl p
  | onDataChannel live bufferedAmount oldCloses =>
    exact ⟨rfl, rfl, rfl, rfl, rfl, rfl, rfl, rfl, rfl, Or.inl rfl, Or.inl rfl⟩
  | channelState side state =>
    simp only [callback]
    split
    · exact Keeps.refl p
    next ch hch => exact setChannel_keeps p side _ hch
  | onStateChange side state => exact onStateChange_keeps p side state
  | onMessage side data => exact Keeps.refl p
  | bufferedAmount side amount =>
    simp only [callback]
    split
    · exact Keeps.refl p
    next ch hch => exact setChannel_keeps p side _ hch
  | onBufferedAmountChange side => exact Keeps.refl p

theorem callbacks_keeps (p : PeerControl) (cbs : List Callback) : Keeps p (p.callbacks cbs).1 := by
  induction cbs generalizing p with
  | nil => exact Keeps.refl p
  | cons cb cbs ih => exact (callback_keeps p cb).trans (ih _)

/-! ### Effects -/

theorem otherOpen_of_bothOpen {p : PeerControl} {side : Side} {ch : DataChannel}
    (h : (p.setChannel side ch).bothOpen = true) : p.otherOpen side = true := by
  cases side with
  | localSide =>
    cases hr : p.remoteDataChannel <;>
      simp_all [bothOpen, setChannel, otherOpen, Side.other, channel]
  | remoteSide =>
    cases hl : p.localDataChannel <;>
      simp_all [bothOpen, setChannel, otherOpen, Side.other, channel]

/-- Everything a callback can do besides changing the object to `q`. -/
inductive Raises (p : PeerControl) : Callback → PeerControl → List Effect → Prop where
  | nothing (cb : Callback) (q : PeerControl) (state : q.state = p.state) : Raises p cb q []
  | disconnected (cb : Callback) (q : PeerControl) (state : q.state = p.state)
      (closing : p.state ≠ .closing) (closed : p.state ≠ .closed) :
      Raises p cb q [.closePeer p.remoteId .goingAway]
  | opened (side : Side) (q : PeerControl) (other : p.otherOpen side = true)
      (state : q.state = .open) :
      Raises p (.onStateChange side .open) q
        [.opened p.state, .onPeerConnect p.remoteId, .onPeerWritable p.localId]
  | described (type : SdpType) (sdp : String) (q : PeerControl) (connecting : p.state = .connecting)
      (pending : p.pending = some type) (state : q.state = p.state) :
      Raises p (.onSuccess (some sdp)) q
        [.sendCommand p.remoteId (descriptionCommand type) (.obj [("sdp", .str sdp)])]
  | candidate (sdpMid : String) (sdpMlineIndex : Int) (sdp : String) :
      Raises p (.onIceCandidate sdpMid sdpMlineIndex (some sdp)) p
        [.sendCommand p.remoteId "ice_candidate" (.obj [("sdp_mid", .str sdpMid),
          ("sdp_mline_index", .int sdpMlineIndex), ("candidate", .str sdp)])]
  | message (side : Side) (data : List UInt8) (ch : DataChannel) (channel : p.channel side = some ch)
      (live : ch.live = .open) : Raises p (.onMessage side data) p [.onPeerMessage p.remoteId data]
  | writable (side : Side) :
      Raises p (.onBufferedAmountChange side) p [.onPeerWritable p.remoteId]
  | crashed (side : Side) (null : p.localDataChannel = none) :
      Raises p (.onBufferedAmountChange side) p [.crash .nullDataChannel]

theorem onPeerDisconnected_raises {p q r : PeerControl} (cb : Callback) (hs : r.state = p.state)
    (hr : r.remoteId = p.remoteId) (hq : q.state = p.state) :
    Raises p cb q r.onPeerDisconnected := by
  unfold onPeerDisconnected
  rw [hs, hr]
  split_ifs with h1 h2
  · exact .nothing cb q hq
  · exact .nothing cb q hq
  · exact .disconnected cb q hq h2 h1

theorem setChannel_state (p : PeerControl) (side : Side) (ch : DataChannel) :
    (p.setChannel side ch).state = p.state := by
  cases side <;> rfl

theorem setChannel_remoteId (p : PeerControl) (side : Side) (ch : DataChannel) :
    (p.setChannel side ch).remoteId = p.remoteId := by
  cases side <;> rfl

theorem setChannel_localId (p : PeerControl) (side : Side) (ch : DataChannel) :
    (p.setChannel side ch).localId = p.localId := by
  cases side <;> rfl

theorem setChannel_peerConnection (p : PeerControl) (side : Side) (ch : DataChannel) :
    (p.setChannel side ch).peerConnection = p.peerConnection := by
  cases side <;> rfl

theorem channel_setChannel (p : PeerControl) (side : Side) (ch : DataChannel) :
    (p.setChannel side ch).channel side = some ch := by
  cases side <;> rfl

theorem channel_setChannel_other (p : PeerControl) (side : Side) (ch : DataChannel) :
    (p.setChannel side ch).channel side.other = p.channel side.other := by
  cases side <;> rfl

theorem onSuccess_raises (p : PeerControl) (sdp : Option String) :
    Raises p (.onSuccess sdp) (p.onSuccess sdp).1 (p.onSuccess sdp).2 := by
  unfold onSuccess
  split
  · exact .nothing _ _ rfl
  · exact .nothing _ _ rfl
  next t sdp hp =>
    dsimp only
    split_ifs with hs
    · refine .described t sdp _ hs hp ?_
      unfold setLocalDescription
      split_ifs <;> rfl
    · exact .nothing _ _ rfl

theorem onStateChange_raises (p : PeerControl) (side : Side) (state : DataState) :
    Raises p (.onStateChange side state) (p.onStateChange side state).1
      (p.onStateChange side state).2 := by
  unfold onStateChange
  split
  · exact .nothing _ _ rfl
  next ch hch =>
    split_ifs
    · have hs := setChannel_state p side (ch.advance state).onStateChange
      have hr := setChannel_remoteId p side (ch.advance state).onStateChange
      have hl := setChannel_localId p side (ch.advance state).onStateChange
      cases state with
      | «open» =>
        simp only [onPeerOpened]
        split_ifs with hb
        · rw [hs, hr, hl]
          replace hb : (p.setChannel side (ch.advance .open).onStateChange).bothOpen = true := hb
          exact .opened side _ (otherOpen_of_bothOpen hb) rfl
        · exact .nothing _ _ hs
      | closed => exact onPeerDisconnected_raises _ hs hr hs
      | connecting => exact .nothing _ _ hs
      | closing => exact .nothing _ _ hs
    · exact .nothing _ _ rfl

theorem callback_raises (p : PeerControl) (cb : Callback) :
    Raises p cb (p.callback cb).1 (p.callback cb).2 := by
  cases cb with
  | onSuccess sdp => exact onSuccess_raises p sdp
  | onFailure => exact .nothing _ _ rfl
  | onIceConnectionChange state =>
    simp only [callback, onIceConnectionChange]
    split
    · exact onPeerDisconnected_raises _ rfl rfl rfl
    · exact onPeerDisconnected_raises _ rfl rfl rfl
    · exact .nothing _ _ rfl
  | onIceCandidate sdpMid sdpMlineIndex sdp =>
    cases sdp with
    | none => exact .nothing _ _ rfl
    | some sdp => exact .candidate sdpMid sdpMlineIndex sdp
  | onDataChannel live bufferedAmount oldCloses =>
    simp only [callback, onDataChannel]
    split
    · exact .nothing _ _ rfl
    · split_ifs
      · exact onPeerDisconnected_raises _ rfl rfl rfl
      · exact .nothing _ _ rfl
  | channelState side state =>
    simp only [callback]
    split
    · exact .nothing _ _ rfl
    · exact .nothing _ _ (setChannel_state p side _)
  | onStateChange side state => exact onStateChange_raises p side state
  | onMessage side data =>
    simp only [callback, onMessage]
    split
    · exact .nothing _ _ rfl
    next ch hch =>
      split_ifs with ho
      · exact .message side data ch hch ho
      · exact .nothing _ _ rfl
  | bufferedAmount side amount =>
    simp only [callback]
    split
    · exact .nothing _ _ rfl
    · exact .nothing _ _ (setChannel_state p side _)
  | onBufferedAmountChange side =>
    simp only [callback, onBufferedAmountChange]
    split
    · exact .nothing _ _ rfl
    · split
      next hl => exact .crashed side hl
      · split_ifs
        · exact .writable side
        · exact .nothing _ _ rfl

/-- Every call made by a callback is in order for the object. -/
theorem callback_ok {p : PeerControl} (h : p.Started) (cb : Callback) :
    ∀ e ∈ (p.callback cb).2, e.Ok p := by
  have hr := callback_raises p cb
  generalize (p.callback cb).1 = q, (p.callback cb).2 = es at hr
  cases hr with
  | nothing => simp
  | disconnected => simp [Effect.Ok]
  | opened => simp [Effect.Ok]
  | described type sdp _ connecting pending state =>
    simp only [List.mem_singleton, forall_eq, Effect.Ok, true_and]
    exact Or.inr ⟨type, h.pending type pending, rfl⟩
  | candidate => simp [Effect.Ok]
  | message => simp [Effect.Ok]
  | writable => simp [Effect.Ok]
  | crashed side null =>
    have := h.localChannel
    simp [null] at this

/-- A callback requests a close only of an object that is not closing or closed,
and leaves its state alone. -/
theorem callback_closePeer {p : PeerControl} {cb : Callback} {peerId : String} {code : CloseCode}
    (h : Effect.closePeer peerId code ∈ (p.callback cb).2) :
    p.state ≠ .closing ∧ p.state ≠ .closed ∧ (p.callback cb).1.state = p.state := by
  have hr := callback_raises p cb
  generalize (p.callback cb).1 = q, (p.callback cb).2 = es at hr h
  cases hr with
  | disconnected _ _ state closing closed => exact ⟨closing, closed, state⟩
  | _ => simp at h

theorem callback_onPeerClose (p : PeerControl) (cb : Callback) (peerId : String) (code : CloseCode) :
    Effect.onPeerClose peerId code ∉ (p.callback cb).2 := by
  have hr := callback_raises p cb
  generalize (p.callback cb).1 = q, (p.callback cb).2 = es at hr
  cases hr <;> simp

theorem SameIdentity.ok_iff {p q : PeerControl} (h : SameIdentity p q) {e : Effect} :
    e.Ok q ↔ e.Ok p := by
  cases e <;> simp only [Effect.Ok, h.remoteId, h.localId, h.role]

theorem callbacks_ok {p : PeerControl} (h : p.Started) (cbs : List Callback) :
    ∀ e ∈ (p.callbacks cbs).2, e.Ok p := by
  induction cbs generalizing p with
  | nil => simp [callbacks]
  | cons cb cbs ih =>
    have hk := callback_keeps p cb
    intro e he
    rcases List.mem_append.mp he with he | he
    · exact callback_ok h cb e he
    · exact hk.same.ok_iff.mp (ih (h.keeps hk) e he)

/-! ### Closing -/

/-- An object that `Control::ClosePeer` may close: connecting or open, with its
peer connection. -/
structure Live (p : PeerControl) : Prop extends p.Started where
  state : p.state = .connecting ∨ p.state = .open
  peerConnection : p.peerConnection = true

theorem Live.keeps {p q : PeerControl} (h : p.Live) (hk : Keeps p q) : q.Live where
  toStarted := h.toStarted.keeps hk
  state := by
    rcases hk.state with hs | hs
    · rw [hs]; exact h.state
    · exact Or.inr hs
  peerConnection := hk.peerConnection.trans h.peerConnection

theorem Live.receiveAnswerSdp_eq {p : PeerControl} (h : p.Live) (sdp : String) (origin : Option ℕ) :
    p.receiveAnswerSdp sdp origin =
      (p.setRemoteDescription .answer sdp, [.answered origin]) := if_pos h.peerConnection

theorem Live.addIceCandidate_eq {p : PeerControl} (h : p.Live) (sdpMid : String)
    (sdpMlineIndex : Int) (candidate : String) :
    p.addIceCandidate sdpMid sdpMlineIndex candidate =
      ({ p with candidates := p.candidates ++ [(sdpMid, sdpMlineIndex, candidate)] }, []) :=
  if_pos h.peerConnection

/-- The object while `Close` releases its peer connection. -/
def closingPeer (p : PeerControl) : PeerControl :=
  { p with state := .closing, peerConnection := false }

theorem Live.close_eq {p : PeerControl} (h : p.Live) (code : CloseCode) (cbs : List Callback) :
    p.close code cbs =
      ({ (p.closingPeer.callbacks cbs).1 with state := .closed },
        .closing :: (p.closingPeer.callbacks cbs).2 ++ [.onPeerClose p.remoteId code]) := by
  unfold close
  rw [if_neg (by rcases h.state with hs | hs <;> simp [hs])]
  simp only [h.peerConnection, if_true]
  rfl

theorem Live.closing_started {p : PeerControl} (h : p.Live) : p.closingPeer.Started :=
  ⟨h.role, h.localChannel, h.pending⟩

theorem Live.close_same {p : PeerControl} (h : p.Live) (code : CloseCode) (cbs : List Callback) :
    SameIdentity p (p.close code cbs).1 := by
  have hk := callbacks_keeps p.closingPeer cbs
  rw [h.close_eq]
  exact ⟨hk.control, hk.localId, hk.remoteId, hk.role, hk.origin, hk.released⟩

theorem Live.close_started {p : PeerControl} (h : p.Live) (code : CloseCode) (cbs : List Callback) :
    (p.close code cbs).1.Started := by
  have hs := h.closing_started.keeps (callbacks_keeps p.closingPeer cbs)
  rw [h.close_eq]
  exact ⟨hs.role, hs.localChannel, hs.pending⟩

theorem Live.close_ok {p : PeerControl} (h : p.Live) (code : CloseCode) (cbs : List Callback) :
    ∀ e ∈ (p.close code cbs).2, e.Ok p := by
  have hcb : ∀ e ∈ (p.closingPeer.callbacks cbs).2, e.Ok p := callbacks_ok h.closing_started cbs
  rw [h.close_eq]
  intro e he
  simp only [List.cons_append, List.mem_cons, List.mem_append, List.not_mem_nil, or_false] at he
  rcases he with rfl | he | rfl
  · trivial
  · exact hcb e he
  · rfl

end PeerControl

end PeerApi
