import PeerApi.Session.PeerClose

/-! One connect per connection. `OnPeerOpened` is reached from a `kOpen` report of
either channel and calls `OnPeerConnect` whenever it finds both channels open; its
test of the state is a debug assertion. So the call is made twice if a channel
reports `kOpen` beside an open channel on an object that is no longer connecting. It
is not made at all if a second remote channel replaces one that has reported `kOpen`
and is still connecting when the local channel reports. A remote side that opens a
second channel can cause either. -/

namespace PeerApi

def Effect.isOnPeerConnect : Effect → Bool
  | .onPeerConnect _ => true
  | _ => false

def Effect.isClosePeer : Effect → Bool
  | .closePeer _ _ => true
  | _ => false

/-- Not part of the announcement of a connection. -/
def Effect.Unannounced : Effect → Prop
  | .onPeerConnect _ => False
  | .opened _ => False
  | _ => True

namespace PeerControl

/-- Neither `Close` nor a disconnect so far. -/
def Intact (p : PeerControl) : Bool := p.peerConnection && !p.log.any Effect.isClosePeer

/-- On the other side a channel has reported `kOpen` and none has closed since. -/
def otherCame (side : Side) (p : PeerControl) : Bool :=
  (p.channel side.other).any fun ch => ch.cameOpen

/-- A channel that reports `kOpen` beside an open channel finds the object still
connecting; and if the other side has reported `kOpen` before, its channel is open. -/
def OpenReport (p : PeerControl) : Callback → Prop
  | .onStateChange side .open =>
    (p.otherOpen side = true → p.state = .connecting) ∧
      (p.state = .connecting → p.Intact = true → p.otherCame side = true →
        p.otherOpen side = true)
  | _ => True

/-! ### The announcement -/

/-- The log announces the connection at most once, from the state `pConnecting`,
and an object that is still connecting has not been announced. -/
inductive Announced (state : PeerState) (log : List Effect) : Prop where
  | not_yet (h : ∀ e ∈ log, e.Unannounced)
  | once (pre : List Effect) (id : String) (post : List Effect)
      (eq : log = pre ++ .opened .connecting :: .onPeerConnect id :: post)
      (hpre : ∀ e ∈ pre, e.Unannounced) (hpost : ∀ e ∈ post, e.Unannounced)
      (moved : state ≠ .connecting)

theorem Announced.append {state state' : PeerState} {log es : List Effect}
    (h : Announced state log) (hes : ∀ e ∈ es, e.Unannounced)
    (hs : state ≠ .connecting → state' ≠ .connecting) : Announced state' (log ++ es) := by
  have app {l : List Effect} (hl : ∀ e ∈ l, e.Unannounced) : ∀ e ∈ l ++ es, e.Unannounced := by
    intro e he
    rcases List.mem_append.mp he with he | he
    · exact hl e he
    · exact hes e he
  cases h with
  | not_yet h => exact .not_yet (app h)
  | once pre id post eq hpre hpost moved =>
    exact .once pre id (post ++ es) (by simp [eq]) hpre (app hpost) (hs moved)

theorem Unannounced.countP {es : List Effect} (h : ∀ e ∈ es, e.Unannounced) :
    es.countP Effect.isOnPeerConnect = 0 := by
  rw [List.countP_eq_zero]
  intro e he hc
  have := h e he
  cases e with
  | onPeerConnect => exact this
  | _ => cases hc

/-- A callback announces the connection or leaves the announcement alone. -/
theorem callback_announced {p : PeerControl} {cb : Callback} (hr : p.OpenReport cb)
    (h : Announced p.state p.log) :
    Announced (p.callback cb).1.state (p.log ++ (p.callback cb).2) := by
  have hraise := callback_raises p cb
  generalize (p.callback cb).1 = q, (p.callback cb).2 = es at hraise
  have quiet {es : List Effect} (hes : ∀ e ∈ es, e.Unannounced) (hs : q.state = p.state) :
      Announced q.state (p.log ++ es) := h.append hes (hs ▸ id)
  cases hraise with
  | nothing _ _ state => exact quiet (by simp) state
  | disconnected _ _ state closing closed => exact quiet (by simp [Effect.Unannounced]) state
  | opened side _ other state =>
    have hc : p.state = .connecting := hr.1 other
    rw [hc] at h ⊢
    cases h with
    | not_yet h =>
      exact .once p.log p.remoteId [.onPeerWritable p.localId] rfl h (by simp [Effect.Unannounced])
        (by simp [state])
    | once pre id post eq hpre hpost moved => exact absurd rfl moved
  | described type sdp _ connecting pending state =>
    exact quiet (by simp [Effect.Unannounced]) state
  | candidate => exact h.append (by simp [Effect.Unannounced]) id
  | message => exact h.append (by simp [Effect.Unannounced]) id
  | writable => exact h.append (by simp [Effect.Unannounced]) id
  | crashed => exact h.append (by simp [Effect.Unannounced]) id

theorem callback_unannounced {p : PeerControl} {cb : Callback} (hq : cb.Quiet) :
    ∀ e ∈ (p.callback cb).2, e.Unannounced := by
  have hr := callback_raises p cb
  generalize (p.callback cb).1 = q, (p.callback cb).2 = es at hr
  cases hr with
  | opened => simp [Callback.Quiet] at hq
  | _ => simp [Effect.Unannounced]

theorem callbacks_unannounced {p : PeerControl} {cbs : List Callback} (hq : ∀ cb ∈ cbs, cb.Quiet) :
    ∀ e ∈ (p.callbacks cbs).2, e.Unannounced := by
  induction cbs generalizing p with
  | nil => simp [callbacks]
  | cons cb cbs ih =>
    intro e he
    rcases List.mem_append.mp he with he | he
    · exact callback_unannounced (hq cb List.mem_cons_self) e he
    · exact ih (fun cb' h' => hq cb' (List.mem_cons_of_mem cb h')) e he

/-! ### Both channels reported -/

/-- The local and a remote channel have reported `kOpen`, and none has closed. -/
def BothReported (p : PeerControl) : Prop :=
  ∀ side, (p.channel side).any (·.cameOpen) = true

/-- Once both channels have reported, the connection is in the log: an object that
still connects waits for a report, and one that is open has been announced. -/
structure Reported (p : PeerControl) (log : List Effect) : Prop where
  live : p.peerConnection = true → p.state = .connecting ∨ p.state = .open
  opened : p.state = .open → ∃ id, .onPeerConnect id ∈ log
  waits : p.state = .connecting → p.peerConnection = true →
    log.any Effect.isClosePeer = false → ¬ p.BothReported

theorem Reported.connect {p : PeerControl} (h : Reported p p.log) (hi : p.Intact = true)
    (hb : p.BothReported) : ∃ id, .onPeerConnect id ∈ p.log := by
  simp only [Intact, Bool.and_eq_true, Bool.not_eq_true'] at hi
  rcases h.live hi.1 with hs | hs
  · exact absurd hb (h.waits hs hi.1 hi.2)
  · exact h.opened hs

/-- Nothing comes open by itself. -/
theorem Reported.of_back {p q : PeerControl} {log es : List Effect} (h : Reported p log)
    (hs : q.state = p.state) (hc : q.peerConnection = p.peerConnection)
    (hb : q.BothReported → p.BothReported) : Reported q (log ++ es) where
  live hq := hs ▸ h.live (hc ▸ hq)
  opened hq := by
    obtain ⟨id, hid⟩ := h.opened (hs ▸ hq)
    exact ⟨id, List.mem_append_left _ hid⟩
  waits hq hq' hn hboth := by
    rw [List.any_append, Bool.or_eq_false_iff] at hn
    exact h.waits (hs ▸ hq) (hc ▸ hq') hn.1 (hb hboth)

theorem Reported.of_same {p q : PeerControl} {log es : List Effect} (h : Reported p log)
    (hs : q.state = p.state) (hc : q.peerConnection = p.peerConnection)
    (hl : q.localDataChannel = p.localDataChannel)
    (hr : q.remoteDataChannel = p.remoteDataChannel) : Reported q (log ++ es) :=
  h.of_back hs hc fun hb side => by
    have hside := hb side
    cases side <;> simpa only [channel, hl, hr] using hside

theorem channel_met (p : PeerControl) (side : Side) (met : Bool) :
    { p with met := met }.channel side = p.channel side := by
  cases side <;> rfl

theorem bothOpen_of_open {p : PeerControl} {side : Side} {ch : DataChannel}
    (hch : p.channel side = some ch) (ho : ch.live = .open) (hother : p.otherOpen side = true) :
    p.bothOpen = true := by
  obtain ⟨ch', hch', ho'⟩ := Option.any_eq_true _ _ |>.mp hother
  simp only [decide_eq_true_eq] at ho'
  cases side with
  | localSide =>
    have hl : p.localDataChannel = some ch := hch
    have hr : p.remoteDataChannel = some ch' := hch'
    simp [bothOpen, hl, hr, ho, ho']
  | remoteSide =>
    have hl : p.localDataChannel = some ch' := hch'
    have hr : p.remoteDataChannel = some ch := hch
    simp [bothOpen, hl, hr, ho, ho']

/-- Replacing a channel by one that has not come open unless the old one had. -/
theorem Reported.setChannel {p : PeerControl} {log es : List Effect} (h : Reported p log)
    {side : Side} {ch ch' : DataChannel} (hch : p.channel side = some ch)
    (hold : ch'.cameOpen = true → ch.cameOpen = true) :
    Reported (p.setChannel side ch') (log ++ es) := by
  refine h.of_back (setChannel_state p side ch') (setChannel_peerConnection p side ch')
    fun hb side' => ?_
  have hside := hb side'
  by_cases he : side' = side
  · subst he
    rw [channel_setChannel] at hside
    rw [hch]
    exact hold hside
  · obtain rfl : side' = side.other := by cases side <;> cases side' <;> simp_all [Side.other]
    rwa [channel_setChannel_other] at hside

/-- `OnPeerOpened` announces a connection that comes open while it is awaited. -/
theorem Reported.onPeerOpened {p q : PeerControl} {log : List Effect} (h : Reported p log)
    (hs : q.state = p.state) (hc : q.peerConnection = p.peerConnection)
    (hb : q.state = .connecting → q.peerConnection = true →
      log.any Effect.isClosePeer = false → q.BothReported → q.bothOpen = true) :
    Reported q.onPeerOpened.1 (log ++ q.onPeerOpened.2) := by
  unfold PeerControl.onPeerOpened
  split_ifs with hopen
  · exact ⟨fun _ => Or.inr rfl, fun _ => ⟨q.remoteId, by simp⟩, fun hq => by cases hq⟩
  · refine ⟨fun hq => hs ▸ h.live (hc ▸ hq), fun hq => ?_, fun hq hq' hn hboth => hopen ?_⟩
    · obtain ⟨id, hid⟩ := h.opened (hs ▸ hq)
      exact ⟨id, List.mem_append_left _ hid⟩
    · exact hb hq hq' (by simpa using hn) hboth

theorem Reported.onStateChange {p : PeerControl} (h : Reported p p.log) {side : Side}
    {state : DataState} (hr : p.OpenReport (.onStateChange side state)) :
    Reported (p.onStateChange side state).1 (p.log ++ (p.onStateChange side state).2) := by
  unfold PeerControl.onStateChange
  split
  · exact h.of_same rfl rfl rfl rfl
  next ch hch =>
    split_ifs with hle
    swap
    · exact h.of_same rfl rfl rfl rfl
    have hlive : (ch.advance state).live = state := by simp [DataChannel.advance, hle]
    -- a report of anything but `kOpen` leaves no channel come open that had not
    have moved (hne : state ≠ .open) {es : List Effect} :
        Reported (p.setChannel side (ch.advance state).onStateChange) (p.log ++ es) :=
      h.setChannel hch fun hc => by
        have hcame : (ch.advance state).cameOpen = true := by
          simpa [DataChannel.cameOpen, DataChannel.onStateChange, hlive, hne] using hc
        exact DataChannel.cameOpen_advance hcame
    cases state with
    | «open» =>
      have hs := setChannel_state p side (ch.advance .open).onStateChange
      have hc := setChannel_peerConnection p side (ch.advance .open).onStateChange
      have hself := channel_setChannel p side (ch.advance .open).onStateChange
      have hother := channel_setChannel_other p side (ch.advance .open).onStateChange
      dsimp only
      generalize p.setChannel side (ch.advance .open).onStateChange = q at hs hc hself hother
      refine h.onPeerOpened hs hc fun hq hq' hn hboth => ?_
      have hintact : p.Intact = true := by
        simp [Intact, hn, show p.peerConnection = true from hc ▸ hq']
      have hcame : p.otherCame side = true := by
        have hcame := hboth side.other
        rwa [channel_met, hother] at hcame
      have hopen := hr.2 (hs ▸ hq) hintact hcame
      have hqo : q.otherOpen side = true := by simpa only [otherOpen, hother] using hopen
      exact bothOpen_of_open hself hlive hqo
    | connecting => exact moved (by simp)
    | closing => exact moved (by simp)
    | closed => exact moved (by simp)

theorem Reported.callback {p : PeerControl} (h : Reported p p.log) {cb : Callback}
    (hr : p.OpenReport cb) : Reported (p.callback cb).1 (p.log ++ (p.callback cb).2) := by
  cases cb with
  | onSuccess sdp =>
    simp only [PeerControl.callback, onSuccess]
    split
    · exact h.of_same rfl rfl rfl rfl
    · exact h.of_same rfl rfl rfl rfl
    · unfold setLocalDescription
      split_ifs <;> exact h.of_same rfl rfl rfl rfl
  | onDataChannel live bufferedAmount oldCloses =>
    -- a new channel has come open only with the one that it replaces
    refine h.of_back rfl rfl fun hb side => ?_
    cases side with
    | localSide => exact hb .localSide
    | remoteSide =>
      have hnew : DataChannel.cameOpen { DataChannel.observe live bufferedAmount with
          replacedOpen := p.remoteDataChannel.any (·.cameOpen) } = true := hb .remoteSide
      simp only [DataChannel.cameOpen, DataChannel.observe, Bool.false_or,
        Bool.and_eq_true] at hnew
      exact hnew.2
  | channelState side state =>
    simp only [PeerControl.callback]
    split
    · exact h.of_same rfl rfl rfl rfl
    next ch hch => exact h.setChannel hch DataChannel.cameOpen_advance
  | onStateChange side state => exact h.onStateChange hr
  | bufferedAmount side amount =>
    simp only [PeerControl.callback]
    split
    · exact h.of_same rfl rfl rfl rfl
    next ch hch => exact h.setChannel hch id
  | _ => exact h.of_same rfl rfl rfl rfl

end PeerControl

namespace World

open Base PeerControl

variable {env : Env}

theorem connect_stable (hq : env.Quiet) :
    Stable env PeerControl.OpenReport fun p => Announced p.state p.log ∧ Reported p p.log where
  begun {p c} h := by
    refine ⟨.not_yet (by simp [h.log]), fun _ => Or.inl h.connecting, fun ho => ?_,
      fun _ _ _ hb => ?_⟩
    · rw [h.connecting] at ho
      cases ho
    · have hremote := hb .remoteSide
      simp [channel, h.remoteData] at hremote
  rejected c localId remoteId :=
    ⟨.not_yet (by simp [PeerControl.new]), ⟨fun h => (by cases h), fun h => (by cases h),
      fun h => (by cases h)⟩⟩
  callback {p cb} hs hr hp := by
    have hk := callback_keeps p cb
    have hrep := hp.2.callback hr
    simp only [logged, hk.log]
    exact ⟨callback_announced hr hp.1, hrep.live, hrep.opened, hrep.waits⟩
  answered {p} sdp origin hl hp := by
    have hrep : Reported p (p.log ++ [.answered origin]) := hp.2.of_same rfl rfl rfl rfl
    exact ⟨hp.1.append (by simp [Effect.Unannounced]) id, hrep.live, hrep.opened, hrep.waits⟩
  candidate {p} candidates hl hp := ⟨hp.1, hp.2.live, hp.2.opened, hp.2.waits⟩
  closed {p} x code hl hp := by
    have hk := callbacks_keeps p.closingPeer (env.onRelease x)
    rw [hl.close_eq]
    simp only [logged, hk.log]
    refine ⟨hp.1.append ?_ fun _ => by simp, fun hc => ?_, fun ho => (by cases ho),
      fun hc => (by cases hc)⟩
    · intro e he
      simp only [List.mem_cons, List.cons_append, List.mem_append, List.not_mem_nil, or_false] at he
      rcases he with rfl | rfl | he | rfl
      · trivial
      · trivial
      · exact callbacks_unannounced (hq x) e he
      · trivial
    · rw [show (p.closingPeer.callbacks (env.onRelease x)).1.peerConnection = false from
        hk.peerConnection] at hc
      cases hc
  released {p} hp := ⟨hp.1, hp.2.live, hp.2.opened, hp.2.waits⟩

/-- Let no channel report `kOpen` beside an open channel on an object that is no
longer connecting, nor on a connecting one of whose other side a channel that has
reported `kOpen` was replaced by one that is not open. Then `OnPeerConnect` is called
at most once for an instance and only in state `pConnecting`, and it has been called
once the local and any remote channel have reported `kOpen` with no close or
disconnect before. -/
theorem onPeerConnect_once (env : Env) (hq : env.Quiet) (as : List Action)
    (ha : Along (step env) (Reports PeerControl.OpenReport) init as) (x : ℕ)
    (hx : x < (run (step env) init as).nextInst) :
    ((run (step env) init as).insts x).log.countP Effect.isOnPeerConnect ≤ 1 ∧
    (∀ pre id post, ((run (step env) init as).insts x).log = pre ++ .onPeerConnect id :: post →
      ∃ pre', pre = pre' ++ [.opened .connecting]) ∧
    (BothReported ((run (step env) init as).insts x) →
      Intact ((run (step env) init as).insts x) = true →
      ((run (step env) init as).insts x).log.countP Effect.isOnPeerConnect = 1) := by
  obtain ⟨hann, hrep⟩ := (connect_stable hq).run ha x hx
  generalize (run (step env) init as).insts x = p at hann hrep
  have hle : p.log.countP Effect.isOnPeerConnect ≤ 1 := by
    cases hann with
    | not_yet h => simp [Unannounced.countP h]
    | once pre id post eq hpre hpost moved =>
      simp [eq, List.countP_append, List.countP_cons, Unannounced.countP hpre,
        Unannounced.countP hpost, Effect.isOnPeerConnect]
  refine ⟨hle, fun pre id post hlog => ?_, fun hb hi => ?_⟩
  · cases hann with
    | not_yet h => exact (h (.onPeerConnect id) (by simp [hlog])).elim
    | once pre' id' post' eq hpre hpost moved =>
      -- there is only one call, so it is the announced one
      rw [eq, show pre' ++ Effect.opened .connecting :: .onPeerConnect id' :: post' =
        (pre' ++ [.opened .connecting]) ++ .onPeerConnect id' :: post' by simp] at hlog
      have hn : Effect.onPeerConnect id ∉ pre' ++ [.opened .connecting] := by
        simp only [List.mem_append, List.mem_singleton, reduceCtorEq, or_false]
        exact fun h => hpre _ h
      exact ⟨pre', ((List.append_cons_inj_of_notMem hn fun h => hpost _ h).mp hlog).1.symm⟩
  · obtain ⟨id, hid⟩ := hrep.connect hi hb
    have : 0 < p.log.countP Effect.isOnPeerConnect := List.countP_pos_iff.mpr ⟨_, hid, rfl⟩
    omega

/-- The local channel is created and the remote one arrives. -/
def arrived : List Action :=
  [.api .open, .net (.connectInternal true), .net (.onOpen 0),
    .command (createOfferMessage ["b"]) none, .process,
    .callback 0 (.onSuccess (some "v=0")), .callback 0 (.onDataChannel .connecting 0 false)]

/-- Both channels open, the remote one first. -/
def connected : List Action := arrived ++
  [.callback 0 (.onStateChange .remoteSide .open), .callback 0 (.onStateChange .localSide .open)]

theorem onPeerConnect_once_connected :
    ((run (step (Env.idle "a" (by decide))) init connected).insts 0).log.countP
      Effect.isOnPeerConnect = 1 := by
  have h := onPeerConnect_once (Env.idle "a" (by decide)) (fun _ _ h => by cases h) connected
    ⟨trivial, trivial, trivial, trivial, trivial, trivial, trivial, ⟨by decide +kernel, by decide +kernel⟩,
      ⟨by decide +kernel, by decide +kernel⟩, trivial⟩ 0 (by decide +kernel)
  exact h.2.2 (fun side => by cases side <;> decide +kernel) (by decide +kernel)

/-- The remote side opens a second channel. -/
def reconnected : List Action := connected ++
  [.callback 0 (.onDataChannel .connecting 0 false), .callback 0 (.onStateChange .remoteSide .open)]

theorem onPeerConnect_twice :
    ¬ ((run (step (Env.idle "a" (by decide))) init reconnected).insts 0).log.countP
      Effect.isOnPeerConnect ≤ 1 := by
  decide +kernel

/-- A second remote channel replaces the one that has reported `kOpen`, and the local
channel reports before it does. -/
def replaced : List Action := arrived ++
  [.callback 0 (.onStateChange .remoteSide .open), .callback 0 (.onDataChannel .connecting 0 false),
    .callback 0 (.onStateChange .localSide .open)]

example : BothReported ((run (step (Env.idle "a" (by decide))) init replaced).insts 0) ∧
    Intact ((run (step (Env.idle "a" (by decide))) init replaced).insts 0) = true ∧
    ((run (step (Env.idle "a" (by decide))) init replaced).insts 0).log.countP
      Effect.isOnPeerConnect = 0 :=
  ⟨fun side => by cases side <;> decide +kernel, by decide +kernel, by decide +kernel⟩

end World

end PeerApi
