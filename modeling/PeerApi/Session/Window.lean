import PeerApi.Session.Ownership

/-! Messages of a connection. `OnPeerMessage` passes on whatever either channel
delivers and does not look at the state, so a message can come before the connect
event, when only one channel is open. If messages are delivered only after one
channel has reported `kOpen` beside the other and before the peer connection is
released, and connections are started only for ids that are not in `peers_`, every
message event comes after the connect event and before the close event of its
connection, and what the handler sends back reaches `channel_->Send` unless an
asynchronous send finds the buffer full. -/

namespace PeerApi

/-- Not the delivery of a message. -/
def Callback.Mute : Callback → Prop
  | .onMessage _ _ => False
  | _ => True

/-- WebRTC delivers no message while a peer connection is released. -/
def Env.Mute (env : Env) : Prop := ∀ x, ∀ cb ∈ env.onRelease x, cb.Mute

namespace PeerControl

/-- An open channel delivers a message only after a channel has reported `kOpen`
while the other one was open, and before `Close` releases the peer connection. -/
def MessageReport (p : PeerControl) : Callback → Prop
  | .onMessage side _ =>
    ∀ ch ∈ p.channel side, ch.live = .open → p.met = true ∧ p.peerConnection = true
  | _ => True

instance (p : PeerControl) : (cb : Callback) → Decidable (p.MessageReport cb)
  | .onMessage side _ =>
    inferInstanceAs (Decidable (∀ ch ∈ p.channel side, ch.live = .open →
      p.met = true ∧ p.peerConnection = true))
  | .onSuccess _ => inferInstanceAs (Decidable True)
  | .onFailure => inferInstanceAs (Decidable True)
  | .onIceConnectionChange _ => inferInstanceAs (Decidable True)
  | .onIceCandidate _ _ _ => inferInstanceAs (Decidable True)
  | .onDataChannel _ _ _ => inferInstanceAs (Decidable True)
  | .channelState _ _ => inferInstanceAs (Decidable True)
  | .onStateChange _ _ => inferInstanceAs (Decidable True)
  | .bufferedAmount _ _ => inferInstanceAs (Decidable True)
  | .onBufferedAmountChange _ => inferInstanceAs (Decidable True)

/-- A message comes from a channel that delivers it. -/
theorem callback_message {p : PeerControl} {cb : Callback} {id : String} {data : List UInt8}
    (h : .onPeerMessage id data ∈ (p.callback cb).2) :
    ∃ side ch, cb = .onMessage side data ∧ p.channel side = some ch ∧ ch.live = .open := by
  have hr := callback_raises p cb
  generalize (p.callback cb).1 = q, (p.callback cb).2 = es at hr h
  cases hr with
  | message side data' ch hch live =>
    simp only [List.mem_singleton, Effect.onPeerMessage.injEq] at h
    exact ⟨side, ch, by rw [h.2], hch, live⟩
  | _ => simp at h

/-- An object that a callback opens is announced. -/
theorem callback_opens {p : PeerControl} {cb : Callback} (hs : (p.callback cb).1.state = .open) :
    p.state = .open ∨ (p.callback cb).2 =
      [.opened p.state, .onPeerConnect p.remoteId, .onPeerWritable p.localId] := by
  have hr := callback_raises p cb
  generalize (p.callback cb).1 = q, (p.callback cb).2 = es at hr hs
  cases hr with
  | nothing _ _ state => exact Or.inl (state.symm.trans hs)
  | disconnected _ _ state closing closed => exact Or.inl (state.symm.trans hs)
  | opened side _ other state => exact Or.inr rfl
  | described type sdp _ connecting pending state => exact Or.inl (state.symm.trans hs)
  | candidate => exact Or.inl hs
  | message => exact Or.inl hs
  | writable => exact Or.inl hs
  | crashed => exact Or.inl hs

theorem callbacks_mute {p : PeerControl} {cbs : List Callback} (hm : ∀ cb ∈ cbs, cb.Mute)
    {id : String} {data : List UInt8} : .onPeerMessage id data ∉ (p.callbacks cbs).2 := by
  induction cbs generalizing p with
  | nil => simp [callbacks]
  | cons cb cbs ih =>
    intro h
    rcases List.mem_append.mp h with h | h
    · obtain ⟨side, ch, rfl, -⟩ := callback_message h
      exact hm _ List.mem_cons_self
    · exact ih (fun cb' h' => hm cb' (List.mem_cons_of_mem cb h')) h

/-! ### Open channels and the state -/

/-- The object is in state `pOpen` from the first report of `kOpen` beside an open
channel until its peer connection is released. -/
def Met (p : PeerControl) : Prop := p.state = .open ↔ p.met = true ∧ p.peerConnection = true

theorem Met.of_same {p q : PeerControl} (h : p.Met) (hs : q.state = p.state) (hm : q.met = p.met)
    (hc : q.peerConnection = p.peerConnection) : q.Met := by
  rw [Met, hs, hm, hc]
  exact h

theorem Met.setChannel {p : PeerControl} (h : p.Met) (side : Side) (ch : DataChannel) :
    (p.setChannel side ch).Met := by
  cases side <;> exact h

/-- `OnPeerOpened` opens an object whose channels have just met. -/
theorem Met.onPeerOpened {p : PeerControl} (h : p.Met) (hc : p.peerConnection = true) :
    { p with met := p.met || p.bothOpen }.onPeerOpened.1.Met := by
  unfold PeerControl.onPeerOpened
  split_ifs with hb
  · replace hb : p.bothOpen = true := hb
    exact ⟨fun _ => ⟨by simp [hb], hc⟩, fun _ => rfl⟩
  · replace hb : ¬ p.bothOpen = true := hb
    exact h.of_same rfl (by simp [hb]) rfl

theorem otherOpen_eq_bothOpen {p : PeerControl} {side : Side} {ch : DataChannel}
    (hch : p.channel side = some ch) (ho : ch.live = .open) : p.otherOpen side = p.bothOpen := by
  cases side with
  | localSide =>
    replace hch : p.localDataChannel = some ch := hch
    cases hr : p.remoteDataChannel <;> simp [otherOpen, Side.other, channel, bothOpen, hch, hr, ho]
  | remoteSide =>
    replace hch : p.remoteDataChannel = some ch := hch
    cases hl : p.localDataChannel <;> simp [otherOpen, Side.other, channel, bothOpen, hch, hl, ho]

theorem Met.callback {p : PeerControl} (h : p.Met) {cb : Callback} (hq : p.QuietReport cb) :
    (p.callback cb).1.Met := by
  cases cb with
  | onSuccess sdp =>
    simp only [PeerControl.callback, onSuccess]
    split
    · exact h
    · exact h.of_same rfl rfl rfl
    · unfold setLocalDescription
      split_ifs <;> exact h.of_same rfl rfl rfl
  | channelState side state =>
    simp only [PeerControl.callback]
    split
    · exact h
    · exact h.setChannel side _
  | onStateChange side state =>
    simp only [PeerControl.callback, PeerControl.onStateChange]
    split
    · exact h
    next ch hch =>
      split_ifs with hle
      swap
      · exact h
      have hset := h.setChannel side (ch.advance state).onStateChange
      cases state with
      | «open» =>
        have hc : p.peerConnection = true := by
          by_contra hc
          have := hq (by simpa using hc)
          simp [Callback.Quiet] at this
        have hlive : (ch.advance .open).onStateChange.live = .open := by
          simp [DataChannel.onStateChange, DataChannel.advance, hle]
        dsimp only
        rw [otherOpen_eq_bothOpen (channel_setChannel p side _) hlive]
        exact hset.onPeerOpened (by rw [setChannel_peerConnection, hc])
      | _ => exact hset
  | bufferedAmount side amount =>
    simp only [PeerControl.callback]
    split
    · exact h
    · exact h.setChannel side _
  | _ => exact h.of_same rfl rfl rfl

end PeerControl

theorem Effect.event?_message {f : Effect} {id : String} {data : List UInt8}
    (h : f.event? = some (.message id data)) : f = .onPeerMessage id data := by
  cases f <;> cases h
  rfl

theorem Effect.event?_close {f : Effect} {id : String} {code : CloseCode} {desc : String}
    (h : f.event? = some (.close id code desc)) : f = .onPeerClose id code := by
  cases f <;> cases h
  rfl

namespace World

open Base Relation PeerControl

variable {env : Env} {G : Guard} {w w' : World}

/-! ### Closed objects -/

/-- A closed object stays closed. -/
theorem Tick.stays_closed (hG : G.Careful) (h : Tick env G w w') (hw : Sound env w)
    (hp : Everywhere Phase w) {x : ℕ} (hx : x < w.nextInst) (hs : (w.insts x).state = .closed) :
    (w'.insts x).state = .closed := by
  by_contra hne
  rcases h.survives hG hw hp (hx.trans_le h.grows.insts) hne with hsur | hbegins
  · exact hsur.state hs
  · exact Nat.lt_irrefl _ (hbegins.fresh ▸ hx)

/-- Every instance of which a close event was raised is closed. -/
def CloseSeen (w : World) : Prop :=
  ∀ x c id code desc, .observer c (some x) (.close id code desc) ∈ w.obs →
    x < w.nextInst ∧ (w.insts x).state = .closed

theorem CloseSeen.tick (hG : G.Careful) (h : Tick env G w w') (hw : Sound env w)
    (hp : Everywhere Phase w) (hc : CloseSeen w) : CloseSeen w' := by
  intro x c id code desc hmem
  have old (h' : .observer c (some x) (.close id code desc) ∈ w.obs) :
      x < w'.nextInst ∧ (w'.insts x).state = .closed :=
    ⟨(hc x c id code desc h').1.trans_le h.grows.insts,
      h.stays_closed hG hw hp (hc x c id code desc h').1 (hc x c id code desc h').2⟩
  -- an entry that is new is due to a call of the instance
  have new {w₁ : World} {raises : ℕ → Event → Prop} {src : ℕ → Effect → Prop}
      (calls : Calls env raises src w₁ w') (hobs : w₁.obs = w.obs)
      (hsrc : src x (.onPeerClose id code) → x < w'.nextInst ∧ (w'.insts x).state = .closed) :
      x < w'.nextInst ∧ (w'.insts x).state = .closed := by
    obtain ⟨os, hos, hby⟩ := calls.observes
    rw [hos, hobs] at hmem
    rcases List.mem_append.mp hmem with hmem | hmem
    · exact old hmem
    · obtain ⟨f, hf, he⟩ := hby _ hmem x rfl
      rw [Effect.event?_close (he _ rfl)] at hf
      exact hsrc hf
  cases h with
  | call h => exact new (.single h) rfl fun h => h.elim
  | dequeued m queue h => exact old hmem
  | received d message origin thread ok => exact old hmem
  | callback y cb hy alive started report h =>
    exact new h rfl fun hf => absurd hf.2 (callback_onPeerClose _ cb id code)
  | answered d k y sdp origin h from_ => exact old hmem
  | candidate d k y sdpMid sdpMlineIndex candidate h => exact old hmem
  | closed d k y code' h calls =>
    refine new calls rfl ?_
    rintro ⟨rfl, -⟩
    rw [calls.same.insts, calls.same.nextInst]
    exact ⟨hw.bound d k x h, removePeer_closed hw h code'⟩
  | registered d p ids thread new starts => exact old hmem
  | rejected d remoteId thread failed => exact old hmem

/-! ### Connected objects -/

/-- The control still has its observer. -/
def Attended (w : World) (c : ℕ) : Prop := (w.controls c).observer = true

theorem fading_attended : Fading Attended := by
  intro w w' c hg hc h
  by_contra hne
  have := hg.observers c hc (by simpa [Attended] using hne)
  rw [show (w'.controls c).observer = true from h] at this
  cases this

/-- The connect event of every open object was raised, as long as its control has an
observer. -/
def ConnectSeen (w : World) : Prop :=
  ∀ x, x < w.nextInst → (w.insts x).state = .open → Attended w (w.insts x).control →
    w.fault = none →
    .observer (w.insts x).control (some x) (.connect (w.insts x).remoteId) ∈ w.obs

/-- It is enough that an object that is open was so before. -/
theorem ConnectSeen.of_open {Q : Obs → Prop} (hc : ConnectSeen w) (hw : Sound env w) (hg : Grows w w')
    (ho : Observes Q w w')
    (hopen : ∀ x, x < w'.nextInst → (w'.insts x).state = .open → x < w.nextInst ∧
      (w.insts x).state = .open ∧ (w'.insts x).control = (w.insts x).control ∧
      (w'.insts x).remoteId = (w.insts x).remoteId) : ConnectSeen w' := by
  intro x hx hs ha hf
  obtain ⟨hx', hs', hcontrol, hremote⟩ := hopen x hx hs
  rw [hcontrol] at ha ⊢
  rw [hremote]
  have hf' : w.fault = none := by
    by_contra hne
    exact hg.fault hne hf
  exact ho.mem (hc x hx' hs' (fading_attended w w' _ hg (hw.owner_lt hx') ha) hf')

/-- Only a callback opens an object. -/
theorem Tick.open_before (hG : ∀ w x cb, ¬ G.report w x cb) (h : Tick env G w w') (hw : Sound env w)
    {x : ℕ} (hx : x < w'.nextInst) (hs : (w'.insts x).state = .open) : x < w.nextInst ∧
      (w.insts x).state = .open ∧ (w'.insts x).control = (w.insts x).control ∧
      (w'.insts x).remoteId = (w.insts x).remoteId := by
  have same (hx : x < w.nextInst) (h : w'.insts x = w.insts x) : x < w.nextInst ∧
      (w.insts x).state = .open ∧ (w'.insts x).control = (w.insts x).control ∧
      (w'.insts x).remoteId = (w.insts x).remoteId := by
    rw [h] at hs ⊢
    exact ⟨hx, hs, rfl, rfl⟩
  cases h with
  | call h => exact same (h.same.nextInst ▸ hx) (by rw [h.same.insts])
  | dequeued m queue h => exact same hx rfl
  | received c message origin thread ok => exact same hx rfl
  | callback y cb hy alive started report h => exact absurd report (hG w y cb)
  | answered c k y sdp origin h from_ =>
    by_cases hxy : x = y
    · subst hxy
      rw [setInst_insts_self, (hw.entries c k x h).live.receiveAnswerSdp_eq] at hs ⊢
      exact ⟨hx, hs, rfl, rfl⟩
    · exact same hx (setInst_insts_ne hxy _ _)
  | candidate c k y sdpMid sdpMlineIndex candidate h =>
    by_cases hxy : x = y
    · subst hxy
      rw [setInst_insts_self, (hw.entries c k x h).live.addIceCandidate_eq] at hs ⊢
      exact ⟨hx, hs, rfl, rfl⟩
    · exact same hx (setInst_insts_ne hxy _ _)
  | closed c k y code h calls =>
    rw [calls.same.nextInst] at hx
    refine same hx ?_
    rw [calls.same.insts] at hs ⊢
    refine setInst_insts_ne ?_ _ _
    rintro rfl
    rw [removePeer_closed hw h code] at hs
    cases hs
  | registered c p ids thread new starts =>
    rcases Nat.lt_succ_iff_lt_or_eq.mp hx with hx | rfl
    · exact same hx (newInst_insts_lt hx)
    · rw [register_insts, newInst_insts_self, new.begun.connecting] at hs
      cases hs
  | rejected c remoteId thread failed =>
    rcases Nat.lt_succ_iff_lt_or_eq.mp hx with hx | rfl
    · exact same hx (newInst_insts_lt hx)
    · rw [newInst_insts_self, newPeer_failed failed] at hs
      cases hs

/-! ### Callbacks -/

/-- The announcement of a connection reaches the observer, unless it crashes. -/
theorem announce_mem (hl : ChannelsSet w) (hf : w.fault = none) {x c : ℕ} {remoteId localId : String}
    (hc : (w.insts x).control = c) (hr : (w.insts x).remoteId = remoteId)
    (hid : (w.insts x).localId = localId) (hset : (w.controls c).observer = true) (state : PeerState)
    (hf' : ([.opened state, .onPeerConnect remoteId, .onPeerWritable localId].foldl
      (perform env x) w).fault = none) :
    .observer c (some x) (.connect remoteId) ∈
      ([.opened state, .onPeerConnect remoteId, .onPeerWritable localId].foldl
        (perform env x) w).obs := by
  have hopened : w.perform env x (.opened state) = w := by
    unfold perform
    rw [if_neg (by simp [hf])]
  simp only [List.foldl_cons, List.foldl_nil, hopened] at hf' ⊢
  have connect : Calls env (fun _ _ => True) (fun _ _ => True) w
      (w.perform env x (.onPeerConnect remoteId)) :=
    perform_calls hl trivial hr.symm fun _ _ => trivial
  have writable : Calls env (fun _ _ => True) (fun _ _ => True) _
      ((w.perform env x (.onPeerConnect remoteId)).perform env x (.onPeerWritable localId)) :=
    perform_calls (hl.same connect.same) trivial
      (by rw [connect.same.insts]; exact Or.inr hid.symm) fun _ _ => trivial
  have hconnected : (w.perform env x (.onPeerConnect remoteId)).fault = none := by
    by_contra hne
    exact writable.grows.fault hne hf'
  refine writable.observes.mem ?_
  unfold perform at hconnected ⊢
  rw [if_neg (by simp [hf])] at hconnected ⊢
  dsimp only at hconnected ⊢
  rw [hc] at hconnected ⊢
  split_ifs at hconnected ⊢
  · cases hconnected
  · unfold observeIfSet
    rw [if_pos hset]
    exact (observe_obs env _ _ hf hset).subset (by simp)

theorem ConnectSeen.callback (hc : ConnectSeen w) (hw : Reached env w) (hf : w.fault = none) {x : ℕ}
    (hx : x < w.nextInst ∧ (w.insts x).released = false) (cb : Callback) :
    ConnectSeen (w.act env (.callback x cb)) := by
  have started := hw.settled x hx.1 hx.2
  have hl := (hw.toSound.callback started cb).channelsSet
  have calls := callback_calls hw hx cb
  have hg := (setInst_grows x (logged ((w.insts x).callback cb)) w).trans calls.grows
  have hk := callback_keeps (w.insts x) cb
  have hact : w.act env (.callback x cb) = ((w.insts x).callback cb).2.foldl (perform env x)
      (w.setInst x (logged ((w.insts x).callback cb))) := by
    simp only [act, if_pos hx]
    rfl
  intro y hy hs ha hf'
  have old (hs' : (w.insts y).state = .open)
      (hcontrol : ((w.act env (.callback x cb)).insts y).control = (w.insts y).control)
      (hremote : ((w.act env (.callback x cb)).insts y).remoteId = (w.insts y).remoteId) :
      .observer ((w.act env (.callback x cb)).insts y).control (some y)
        (.connect ((w.act env (.callback x cb)).insts y).remoteId) ∈
        (w.act env (.callback x cb)).obs := by
    have hy' : y < w.nextInst := calls.same.nextInst ▸ hy
    rw [hcontrol] at ha ⊢
    rw [hremote]
    exact calls.observes.mem (hc y hy' hs' (fading_attended _ _ _ hg (hw.owner_lt hy') ha) hf)
  rw [calls.same.insts] at hs ha old ⊢
  by_cases hyx : y = x
  · subst hyx
    rw [setInst_insts_self] at hs ha old ⊢
    have hset : (w.controls (w.insts y).control).observer = true :=
      fading_attended _ _ _ hg (hw.owner_lt hx.1) (hk.control ▸ ha)
    rcases callback_opens hs with hopen | heq
    · exact old hopen hk.control hk.remoteId
    · rw [hact, heq] at hf' ⊢
      rw [show (logged ((w.insts y).callback cb)).control = _ from hk.control,
        show (logged ((w.insts y).callback cb)).remoteId = _ from hk.remoteId]
      refine announce_mem hl hf ?_ ?_ ?_ hset (w.insts y).state hf'
      · rw [setInst_insts_self]
        exact hk.control
      · rw [setInst_insts_self]
        exact hk.remoteId
      · rw [setInst_insts_self]
        exact hk.localId
  · rw [setInst_insts_ne hyx] at hs old ⊢
    exact old hs rfl rfl

/-! ### Runs -/

/-- The state follows the channels, as long as they are quiet after a release. -/
theorem met_stable : Stable env PeerControl.QuietReport Met where
  begun {p c} h := by simp [Met, h.connecting, h.unmet]
  rejected c localId remoteId := by simp [Met, PeerControl.new]
  callback {p cb} _ hr hp := (hp.callback hr).of_same rfl rfl rfl
  answered {p} sdp origin _ hp := hp.of_same rfl rfl rfl
  candidate {p} candidates _ hp := hp.of_same rfl rfl rfl
  closed {p} x code hl _ := by
    have hk := callbacks_keeps p.closingPeer (env.onRelease x)
    rw [hl.close_eq]
    have hc : (p.closingPeer.callbacks (env.onRelease x)).1.peerConnection = false :=
      hk.peerConnection
    simp [Met, logged, hc]
  released {p} hp := hp.of_same rfl rfl rfl

/-- Messages are delivered only while the channels of the instance have met, WebRTC is
quiet after a release, and only ids that are not in `peers_` are started, none twice in
one command. -/
def Timely (env : Env) (w : World) : Action → Prop
  | .callback x cb => (w.insts x).QuietReport cb ∧ (w.insts x).MessageReport cb
  | .process => ∀ m ∈ w.queue.head?, (startedIds env w m).Nodup ∧
      ∀ id ∈ startedIds env w m, (w.controls m.handler).peers.find? id = none
  | _ => True

instance (env : Env) (w : World) : (a : Action) → Decidable (Timely env w a)
  | .callback x cb => inferInstanceAs (Decidable (((w.insts x).peerConnection = false → cb.Quiet) ∧
      (w.insts x).MessageReport cb))
  | .process => inferInstanceAs (Decidable (∀ m ∈ w.queue.head?, (startedIds env w m).Nodup ∧
      ∀ id ∈ startedIds env w m, (w.controls m.handler).peers.find? id = none))
  | .api _ => inferInstanceAs (Decidable True)
  | .command _ _ => inferInstanceAs (Decidable True)
  | .net _ => inferInstanceAs (Decidable True)

/-- The guard of such a step, and of one that is no callback. -/
def timelyGuard : Guard :=
  freshGuard (fun _ _ => True) (fun _ _ _ => True) (fun _ _ _ _ _ h => h)

def stillGuard : Guard := { timelyGuard with report := fun _ _ _ => False }

theorem timelyGuard_careful : timelyGuard.Careful := freshGuard_careful _

theorem Timely.starts (ha : Timely env w .process) {m : Message} {queue : List Message}
    (hqueue : w.queue = m :: queue) :
    timelyGuard.starts { w with queue := queue } m.handler (startedIds env w m) := by
  obtain ⟨hnodup, hall⟩ := ha m (by rw [hqueue]; rfl)
  exact ⟨hnodup, fun id hid => ⟨hall id hid, trivial⟩⟩

/-- A step that is no callback. -/
theorem Timely.still {a : Action} (ha : Timely env w a) (hcb : ∀ x cb, a ≠ .callback x cb) :
    Admitted env stillGuard w a := by
  cases a with
  | process =>
    exact fun m queue hqueue =>
      ⟨ha.starts hqueue, fun _ _ => trivial, fun _ _ _ _ _ _ => trivial, fun _ _ _ _ _ => trivial⟩
  | callback x cb => exact absurd rfl (hcb x cb)
  | _ => trivial

theorem Timely.admitted {a : Action} (ha : Timely env w a) : Admitted env timelyGuard w a := by
  cases a with
  | process =>
    exact fun m queue hqueue =>
      ⟨ha.starts hqueue, fun _ _ => trivial, fun _ _ _ _ _ _ => trivial, fun _ _ _ _ _ => trivial⟩
  | callback x cb => exact ⟨ha.1, fun _ _ => trivial⟩
  | _ => trivial

theorem Timely.reports {a : Action} (ha : Timely env w a) :
    Reports PeerControl.QuietReport w a := by
  cases a with
  | callback x cb => exact ha.1
  | _ => trivial

/-- What a run maintains in which messages come in time. -/
structure Windowed (env : Env) (w : World) : Prop extends Tended env Attended w where
  connected : ConnectSeen w
  closed : CloseSeen w

theorem Windowed.act (hq : env.Quiet) (hr : Reached env w) (hw : Windowed env w)
    (hf : w.fault = none) {a : Action} (ha : Timely env w a) : Windowed env (w.act env a) := by
  have hkept := calls_invariant (P := fun w => Tended env Attended w ∧ CloseSeen w)
    (fun h hw => ⟨hw.1.tick hq fading_attended timelyGuard_careful h,
      hw.2.tick timelyGuard_careful h hw.1.toSound hw.1.phases⟩)
    (act_ticks hr ha.admitted) ⟨hw.toTended, hw.closed⟩
  refine ⟨hkept.1, ?_, hkept.2⟩
  have still (hcb : ∀ x cb, a ≠ .callback x cb) : ConnectSeen (w.act env a) :=
    (calls_invariant (P := fun w => Sound env w ∧ ConnectSeen w)
      (fun h hw => ⟨h.sound hw.1, hw.2.of_open hw.1 h.grows (Ticks.raised (.single h))
        fun x => h.open_before (fun _ _ _ h => h) hw.1⟩)
      (act_ticks hr (ha.still hcb)) ⟨hw.toSound, hw.connected⟩).2
  cases a with
  | callback x cb =>
    by_cases hx : x < w.nextInst ∧ (w.insts x).released = false
    · exact hw.connected.callback hr hf hx cb
    · simp only [World.act, if_neg hx]
      exact hw.connected
  | _ => exact still fun x cb h => by cases h

theorem Windowed.releases (hq : env.Quiet) (hw : Windowed env w) :
    Windowed env w.releaseControls.releaseInsts := by
  have hobs (c : ℕ) : (w.releaseControls.releaseInsts.controls c).observer =
      (w.controls c).observer := releaseControls_keeps (·.observer) (fun _ => rfl) c
  refine ⟨hw.toTended.releases hq fun x hx hs ha => ?_, fun x hx hs ha hf => ?_,
    fun x c id code desc h => ⟨(hw.closed x c id code desc h).1, ?_⟩⟩
  · have ha' : (w.controls (w.insts x).control).observer = true := (hobs _).symm.trans ha
    refine ⟨fun hd => ?_, ha'⟩
    have := hd.2.2
    simp [controlHeld, hw.observed _ ha' (hw.owners x hx)] at this
  · obtain ⟨hstate, hcontrol, hremote⟩ := released_same w x
    rw [hstate] at hs
    rw [hcontrol] at ha ⊢
    rw [hremote]
    exact hw.connected x hx hs ((hobs _).symm.trans ha) hf
  · exact (released_same w x).1.trans (hw.closed x c id code desc h).2

theorem Windowed.step (hq : env.Quiet) (hr : Reached env w) (hw : Windowed env w) {a : Action}
    (ha : Timely env w a) : Windowed env (w.step env a) := by
  unfold World.step
  split_ifs with hf
  · exact hw
  · exact (hw.act hq hr (by simpa using hf) ha).releases hq

theorem windowed_run (hq : env.Quiet) {as : List Action}
    (ha : Along (World.step env) (Timely env) init as) :
    Windowed env (run (World.step env) init as) :=
  (ha.invariant (P := fun w => Reached env w ∧ Windowed env w)
    (fun _ a hw hr => ⟨hw.1.step a, hw.2.step hq hw.1 hr⟩)
    ⟨reached_init env, ⟨sound_init env, fun x hx => (by cases hx), fun x hx => (by cases hx)⟩,
      fun x hx => (by cases hx), fun x c id code desc h => (by cases h)⟩).2

/-! ### Message events -/

/-- Without callbacks there are no messages. -/
theorem Tick.no_message (hm : env.Mute) (hG : ∀ w x cb, ¬ G.report w x cb) (h : Tick env G w w')
    (hw : Sound env w) :
    Observes (fun o => ∀ x id data, o.source = some x → o.event? ≠ some (.message id data)) w w' := by
  have calls {w₁ : World} {raises : ℕ → Event → Prop} {src : ℕ → Effect → Prop}
      (h : Calls env raises src w₁ w') (hobs : w₁.obs = w.obs)
      (hsrc : ∀ x id data, ¬ src x (.onPeerMessage id data)) :
      Observes (fun o => ∀ x id data, o.source = some x → o.event? ≠ some (.message id data)) w w' := by
    obtain ⟨os, hos, hby⟩ := h.observes
    refine ⟨os, hos.trans (by rw [hobs]), fun o ho x id data hsource hevent => ?_⟩
    obtain ⟨f, hf, he⟩ := hby o ho x hsource
    rw [Effect.event?_message (he _ hevent)] at hf
    exact hsrc x id data hf
  cases h with
  | call h => exact calls (.single h) rfl fun _ _ _ h => h
  | callback x cb hx alive started report h => exact absurd report (hG w x cb)
  | closed c k x code h h' =>
    refine calls h' rfl fun y id data hf => ?_
    have hmem := hf.2
    rw [removeEffects, (hw.entries c k x h).live.close_eq] at hmem
    simp only [List.mem_cons, List.cons_append, List.mem_append, reduceCtorEq, List.not_mem_nil,
      false_or, or_false] at hmem
    exact callbacks_mute (hm x) hmem
  | _ => exact .of_eq rfl

/-- A message event is raised by an open channel that delivers the message. -/
theorem message_step (hm : env.Mute) (hr : Reached env w) {a : Action} (ha : Timely env w a)
    {os : List Obs} (hos : (w.step env a).obs = w.obs ++ os) {c x : ℕ} {id : String}
    {data : List UInt8} (hmem : .observer c (some x) (.message id data) ∈ os) :
    w.fault = none ∧ (w.act env a).obs = w.obs ++ os ∧
    ∃ side ch, a = .callback x (.onMessage side data) ∧
      (x < w.nextInst ∧ (w.insts x).released = false) ∧
      (w.insts x).channel side = some ch ∧ ch.live = .open := by
  have nothing (h : w.obs = w.obs ++ os) : False := by
    rw [List.self_eq_append_right.mp h] at hmem
    cases hmem
  unfold World.step at hos
  split_ifs at hos with hf
  · exact (nothing hos).elim
  replace hos : (w.act env a).obs = w.obs ++ os := hos
  refine ⟨by simpa using hf, hos, ?_⟩
  have still (hcb : ∀ x cb, a ≠ .callback x cb) : False := by
    have h := (calls_invariant (P := fun w' => Sound env w' ∧ Observes (fun o => ∀ x id data,
        o.source = some x → o.event? ≠ some (.message id data)) w w')
      (fun h hw => ⟨h.sound hw.1, hw.2.trans (h.no_message hm (fun _ _ _ h => h) hw.1)⟩)
      (act_ticks hr (ha.still hcb)) ⟨hr.toSound, .of_eq rfl⟩).2
    exact h.all hos _ hmem x id data rfl rfl
  cases a with
  | callback y cb =>
    by_cases hy : y < w.nextInst ∧ (w.insts y).released = false
    · obtain ⟨f, ⟨rfl, hf⟩, he⟩ := (callback_calls hr hy cb).observes.all hos _ hmem x rfl
      rw [Effect.event?_message (he _ rfl)] at hf
      obtain ⟨side, ch, rfl, hch, hlive⟩ := callback_message hf
      exact ⟨side, ch, rfl, hy, hch, hlive⟩
    · simp only [World.act, if_neg hy] at hos
      exact (nothing hos).elim
  | _ => exact (still fun x cb h => by cases h).elim

/-- The world in which the handler of an event is called. -/
def raised (c : ℕ) (source : Option ℕ) (e : Event) (w : World) : World :=
  { w with obs := w.obs ++ [.observer c source e, .handler w.control source e] }

theorem raised_same (c : ℕ) (source : Option ℕ) (e : Event) (w : World) :
    SameRegistry w (w.raised c source e) := ⟨rfl, rfl, fun _ => rfl, fun _ => rfl⟩

theorem observe_message_eq (hf : w.fault = none) {c : ℕ} (hset : (w.controls c).observer = true)
    (source : Option ℕ) (id : String) (data : List UInt8) :
    w.observe env c source (.message id data) =
      if env.registered "message" then
        (env.handler (w.raised c source (.message id data)).obs).foldl (api env)
          (w.raised c source (.message id data))
      else { w with obs := w.obs ++ [.observer c source (.message id data)] } := by
  simp only [observe, hf, hset, notify, callEventHandler, Event.name, raised, Option.isSome_none,
    Bool.false_eq_true, if_true, if_false, List.append_assoc, List.cons_append, List.nil_append]

theorem observe_message_obs (hl : ChannelsSet w) (hf : w.fault = none) {c : ℕ}
    (hset : (w.controls c).observer = true) (source : Option ℕ) (id : String) (data : List UInt8) :
    ∃ session, (w.observe env c source (.message id data)).obs <+:
      w.obs ++ [.observer c source (.message id data), .handler session source (.message id data)] := by
  refine ⟨w.control, ?_⟩
  rw [observe_message_eq hf hset]
  split_ifs
  · have hmoves : Moves env nobody (w.raised c source (.message id data)) _ :=
      apis_moves (hl.same (raised_same c source (.message id data) w))
        (env.handler (w.raised c source (.message id data)).obs)
    rw [calls_invariant (P := fun w' => w'.obs = (w.raised c source (.message id data)).obs)
      (fun h hw => h.obs.trans hw) hmoves rfl]
    exact List.prefix_refl _
  · exact ⟨[.handler w.control source (.message id data)], by simp⟩

/-- The buffer of the local channel of instance `x` is not full. -/
def HasRoom (w : World) (x : ℕ) : Prop :=
  ∀ l ∈ (w.insts x).localDataChannel, l.bufferedAmount < DataChannel.maxBufferSize

/-- Whatever the handler does first, data that it then sends to `id`, synchronously or
while the buffer is not full, is given to `channel_->Send` of the local channel of
instance `x`, which answers. -/
def Answers (env : Env) (x : ℕ) (id : String) (w : World) : Prop :=
  ∀ (calls : List Api) (data : List UInt8) (wait : Bool), (calls.foldl (api env) w).fault = none →
    (wait = true ∨ (calls.foldl (api env) w).HasRoom x) →
    ((calls.foldl (api env) w).api env (.send id data wait)).handed =
      (calls.foldl (api env) w).handed ++
        [⟨x, data, env.accepted (calls.foldl (api env) w).handed.length⟩]

theorem answers_of_open (hl : ChannelsSet w) {c x : ℕ} {id : String} (hc : w.control = some c)
    (hx : (w.controls c).peers.find? id = some x) (hs : (w.insts x).state = .open) :
    Answers env x id w := by
  intro calls data wait hf hroom
  have hmoves : Moves env nobody w (calls.foldl (api env) w) := apis_moves hl calls
  have hcontrol : (calls.foldl (api env) w).control = some c :=
    calls_invariant (P := fun w' => w'.control = some c) (fun h hw => h.holds hw) hmoves hc
  have hsame := hmoves.same
  generalize calls.foldl (api env) w = w' at hf hroom hcontrol hsame
  rw [← hsame.peers] at hx
  rw [← hsame.insts] at hs
  obtain ⟨l, hlocal⟩ := Option.isSome_iff_exists.mp ((hl.same hsame) c id x hx)
  simp only [api, hf, peerSend, hcontrol, controlSend, hx, Option.isSome_none, Bool.false_eq_true,
    if_false]
  cases wait with
  | true =>
    simp only [PeerControl.syncSend, hs, hlocal, Option.map_some, handOver, DataChannel.syncSend,
      if_true]
    split_ifs with ha <;> simp [ha]
  | false =>
    have hl : l.bufferedAmount < DataChannel.maxBufferSize :=
      hroom.resolve_left (by decide) l hlocal
    simp [PeerControl.send, hs, hlocal, handOver, DataChannel.send, Nat.not_le.mpr hl]

/-- The instance with a delivered message in its log. -/
def delivered (x : ℕ) (data : List UInt8) (w : World) : World :=
  w.setInst x (logged (w.insts x, [.onPeerMessage (w.insts x).remoteId data]))

theorem delivered_channelsSet (hl : ChannelsSet w) (x : ℕ) (data : List UInt8) :
    ChannelsSet (w.delivered x data) := by
  intro c k y hy
  by_cases hyx : y = x
  · subst hyx
    rw [delivered, setInst_insts_self]
    exact hl c k y hy
  · rw [delivered, setInst_insts_ne hyx]
    exact hl c k y hy

/-- A message of an open channel is passed on to the observer. -/
theorem act_message (hf : w.fault = none) {x : ℕ}
    (hx : x < w.nextInst ∧ (w.insts x).released = false) {side : Side} {ch : DataChannel}
    (hch : (w.insts x).channel side = some ch) (hlive : ch.live = .open) (data : List UInt8) :
    w.act env (.callback x (.onMessage side data)) =
      if (w.controls (w.insts x).control).destroyed then (w.delivered x data).crash .danglingControl
      else (w.delivered x data).observeIfSet env (w.insts x).control (some x)
        (.message (w.insts x).remoteId data) := by
  have hcb : (w.insts x).callback (.onMessage side data) =
      (w.insts x, [.onPeerMessage (w.insts x).remoteId data]) := by
    simp only [PeerControl.callback, PeerControl.onMessage, hch, hlive, if_true]
  have hself : ((w.delivered x data).insts x).control = (w.insts x).control := by
    rw [delivered, setInst_insts_self]
    rfl
  simp only [act, if_pos hx, runPeer, hcb, List.foldl_cons, List.foldl_nil]
  rw [show w.setInst x { w.insts x with
    log := (w.insts x).log ++ [.onPeerMessage (w.insts x).remoteId data] } = w.delivered x data from rfl]
  simp only [perform, hself]
  rw [if_neg (by simp [show (w.delivered x data).fault = none from hf])]
  rfl

/-- What a message event finds: the sender is registered and open, its connect event
was raised and no close event, and the handler can answer. -/
structure InWindow (env : Env) (w : World) (a : Action) (c x : ℕ) (id : String) (data : List UInt8) :
    Prop where
  connected : .observer c (some x) (.connect id) ∈ w.obs
  unclosed : ∀ d id' code desc, .observer d (some x) (.close id' code desc) ∉ w.obs
  registered : (w.controls c).peers.find? id = some x
  state : (w.insts x).state = .open
  answered : env.registered "message" = true → ∃ w₁,
    w₁.obs = w.obs ++ [.observer c (some x) (.message id data),
      .handler (some c) (some x) (.message id data)] ∧
    w.act env a = (env.handler w₁.obs).foldl (api env) w₁ ∧ Answers env x id w₁

/-- Where messages are delivered in time, every message event lies between the
connect and the close event of its connection, and the answer of its handler reaches
the data channel. -/
theorem message_in_window (env : Env) (hq : env.Quiet) (hm : env.Mute) (as : List Action) (a : Action)
    (ha : Along (step env) (Timely env) init (as ++ [a])) (os : List Obs)
    (hos : ((run (step env) init as).step env a).obs = (run (step env) init as).obs ++ os) (c x : ℕ)
    (id : String) (data : List UInt8) (hmem : .observer c (some x) (.message id data) ∈ os) :
    InWindow env (run (step env) init as) a c x id data := by
  obtain ⟨has, ha, -⟩ := along_append.mp ha
  have hr := reached_run env as
  have hw := windowed_run hq has
  have hmet := met_stable.run (has.mono fun w a => Timely.reports)
  generalize run (step env) init as = w at hr hw hmet ha hos
  obtain ⟨hf, hact, side, ch, rfl, hx, hch, hlive⟩ := message_step hm hr ha hos hmem
  have hopen : (w.insts x).state = .open := (hmet x hx.1).mpr (ha.2 ch hch hlive)
  have hdelivered : (w.delivered x data).obs = w.obs := rfl
  have nothing (h : w.obs = w.obs ++ os) : False := by
    rw [List.self_eq_append_right.mp h] at hmem
    cases hmem
  rw [act_message hf hx hch hlive] at hact
  split_ifs at hact with hd
  · exact (nothing hact).elim
  unfold observeIfSet at hact
  split_ifs at hact with hset
  · have hset' : (w.controls (w.insts x).control).observer = true := hset
    have hcontrol := hw.observed _ hset' (hw.owners x hx.1)
    have hreg := hw.owned x hx.1 (by rw [hopen]; decide) hset'
    have hl := delivered_channelsSet hw.channelsSet x data
    obtain ⟨rfl, rfl⟩ : c = (w.insts x).control ∧ id = (w.insts x).remoteId := by
      obtain ⟨session, hprefix⟩ := observe_message_obs hl hf hset (some x)
        (w.insts x).remoteId data
      rw [hact, hdelivered] at hprefix
      have := ((List.prefix_append_right_inj _).mp hprefix).subset hmem
      simp only [List.mem_cons, Obs.observer.injEq, Event.message.injEq, reduceCtorEq,
        List.not_mem_nil, or_false] at this
      exact ⟨this.1, this.2.2.1⟩
    refine ⟨hw.connected x hx.1 hopen hset' hf, fun d id' code desc h => ?_, hreg, hopen,
      fun hregistered => ⟨(w.delivered x data).raised (w.insts x).control (some x)
        (.message (w.insts x).remoteId data), ?_, ?_, ?_⟩⟩
    · rw [(hw.closed x d id' code desc h).2] at hopen
      cases hopen
    · rw [← hcontrol]
      rfl
    · rw [act_message hf hx hch hlive, if_neg hd]
      unfold observeIfSet
      rw [if_pos hset, observe_message_eq (w := w.delivered x data) hf hset, if_pos hregistered]
    · refine answers_of_open (hl.same (raised_same _ _ _ _)) hcontrol hreg ?_
      rw [show ((w.delivered x data).raised _ _ _).insts x = _ from setInst_insts_self _ _ _]
      exact hopen
  · exact (nothing hact).elim

/-- The user sends every message back, as the echo server does. -/
def echoing : Env :=
  { Env.alone with
    handler := fun obs =>
      match obs.getLast? with
      | some (.handler _ _ (.message peerId data)) => [.send peerId data false]
      | _ => [] }

/-- A connection whose remote channel is open before the local one. -/
def halfOpen : List Action :=
  [.api .open, .net (.connectInternal true), .net (.onOpen 0),
    .command (createOfferMessage ["b"]) none, .process, .callback 0 (.onSuccess (some "v=0")),
    .callback 0 (.onDataChannel .connecting 0 false), .callback 0 (.onStateChange .remoteSide .open)]

def fullyOpen : List Action := halfOpen ++ [.callback 0 (.onStateChange .localSide .open)]

theorem message_in_window_echoed :
    InWindow echoing (run (step echoing) init fullyOpen) (.callback 0 (.onMessage .remoteSide [1]))
      0 0 "b" [1] :=
  message_in_window echoing (fun _ _ h => by cases h) (fun _ _ h => by cases h) fullyOpen
    (.callback 0 (.onMessage .remoteSide [1])) (by decide +kernel)
    [.observer 0 (some 0) (.message "b" [1]), .handler (some 0) (some 0) (.message "b" [1])]
    (by decide +kernel) 0 0 "b" [1] (by decide)

/-- With a full buffer the answer is refused. -/
example : (run (step echoing) init (fullyOpen ++
    [.callback 0 (.bufferedAmount .localSide DataChannel.maxBufferSize),
      .callback 0 (.onMessage .remoteSide [1])])).handed = [] := by
  decide +kernel

/-- A message of the remote channel while the local one is not open yet: it comes
before the connect event, the sender is not open, and the answer goes nowhere. -/
theorem halfOpen_message :
    .observer 0 (some 0) (.message "b" [1]) ∈
      (run (step echoing) init (halfOpen ++ [.callback 0 (.onMessage .remoteSide [1])])).obs ∧
    .observer 0 (some 0) (.connect "b") ∉
      (run (step echoing) init (halfOpen ++ [.callback 0 (.onMessage .remoteSide [1])])).obs ∧
    ((run (step echoing) init halfOpen).insts 0).state = .connecting ∧
    (run (step echoing) init (halfOpen ++ [.callback 0 (.onMessage .remoteSide [1])])).handed = [] := by
  decide +kernel

end World

end PeerApi
