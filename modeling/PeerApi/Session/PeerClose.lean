import PeerApi.Session.Instances

/-! At most one close per connection. The log of an instance has at most one
`removed` mark, directly followed by the `closing` mark of the `Close` that it
causes and, later, by the only `OnPeerClose`; from the `closing` mark on the instance
requests no close and sends no description.

Of WebRTC it is assumed that the data channels of a released peer connection
report only `kClosing` and `kClosed`. -/

namespace PeerApi

/-- A report of a data channel is one of `kClosing` or `kClosed`. -/
def Callback.Quiet : Callback → Prop
  | .onStateChange _ state => state = .closing ∨ state = .closed
  | _ => True

instance (cb : Callback) : Decidable cb.Quiet := by
  cases cb <;> unfold Callback.Quiet <;> infer_instance

/-- What WebRTC does while a peer connection is released. -/
def Env.Quiet (env : Env) : Prop := ∀ x, ∀ cb ∈ env.onRelease x, cb.Quiet

/-- Once the peer connection is released, its channels are quiet. -/
def PeerControl.QuietReport (p : PeerControl) (cb : Callback) : Prop :=
  p.peerConnection = false → cb.Quiet

def Effect.isOnPeerClose : Effect → Bool
  | .onPeerClose _ _ => true
  | _ => false

def Effect.isRemoved : Effect → Bool
  | .removed => true
  | _ => false

theorem Effect.removed_mem {es : List Effect} : .removed ∈ es ↔ es.any isRemoved = true := by
  simp only [List.any_eq_true]
  refine ⟨fun h => ⟨_, h, rfl⟩, fun ⟨e, he, hr⟩ => ?_⟩
  cases e with
  | removed => exact he
  | _ => cases hr

/-- Neither a close request nor a description. -/
def Effect.Late : Effect → Prop
  | .closePeer _ _ => False
  | .sendCommand _ command _ => command ≠ "offersdp" ∧ command ≠ "answersdp"
  | _ => True

/-- Neither a close nor one of the marks of `ClosePeer`. -/
def Effect.Plain : Effect → Prop
  | .onPeerClose _ _ => False
  | .removed => False
  | .closing => False
  | _ => True

namespace PeerControl

theorem callback_plain (p : PeerControl) (cb : Callback) : ∀ e ∈ (p.callback cb).2, e.Plain := by
  have hr := callback_raises p cb
  generalize (p.callback cb).1 = q, (p.callback cb).2 = es at hr
  cases hr <;> simp [Effect.Plain]

theorem callbacks_plain (p : PeerControl) (cbs : List Callback) :
    ∀ e ∈ (p.callbacks cbs).2, e.Plain := by
  induction cbs generalizing p with
  | nil => simp [callbacks]
  | cons cb cbs ih =>
    intro e he
    rcases List.mem_append.mp he with he | he
    · exact callback_plain p cb e he
    · exact ih (p.callback cb).1 e he

/-- A closing or closed object stays so under quiet callbacks, and they only make
late calls. -/
theorem callback_late {p : PeerControl} (hs : p.state = .closing ∨ p.state = .closed)
    {cb : Callback} (hq : cb.Quiet) :
    (p.callback cb).1.state = p.state ∧ ∀ e ∈ (p.callback cb).2, e.Late := by
  have hr := callback_raises p cb
  generalize (p.callback cb).1 = q, (p.callback cb).2 = es at hr
  cases hr with
  | nothing _ _ state => exact ⟨state, by simp⟩
  | disconnected _ _ state closing closed => exact absurd hs (by simp [closing, closed])
  | opened side => simp [Callback.Quiet] at hq
  | described type sdp _ connecting pending state => exact absurd hs (by simp [connecting])
  | candidate => exact ⟨rfl, by simp [Effect.Late]⟩
  | message => exact ⟨rfl, by simp [Effect.Late]⟩
  | writable => exact ⟨rfl, by simp [Effect.Late]⟩
  | crashed => exact ⟨rfl, by simp [Effect.Late]⟩

theorem callbacks_late {p : PeerControl} (hs : p.state = .closing ∨ p.state = .closed)
    {cbs : List Callback} (hq : ∀ cb ∈ cbs, cb.Quiet) :
    ∀ e ∈ (p.callbacks cbs).2, e.Late ∧ e.Plain := by
  induction cbs generalizing p with
  | nil => simp [callbacks]
  | cons cb cbs ih =>
    obtain ⟨hstate, hlate⟩ := callback_late hs (hq cb List.mem_cons_self)
    intro e he
    rcases List.mem_append.mp he with he | he
    · exact ⟨hlate e he, callback_plain p cb e he⟩
    · exact ih (hstate ▸ hs) (fun cb' h' => hq cb' (List.mem_cons_of_mem cb h')) e he

/-! ### The phases of an object -/

/-- `Close` has run once: the log up to it, what it did and what came later. -/
structure Closed (p : PeerControl) : Prop where
  state : p.state = .closed
  peerConnection : p.peerConnection = false
  log : ∃ pre mid post code, p.log =
      pre ++ .removed :: .closing :: (mid ++ .onPeerClose p.remoteId code :: post) ∧
    (∀ e ∈ pre, e.Plain) ∧ (∀ e ∈ mid, e.Late ∧ e.Plain) ∧ ∀ e ∈ post, e.Late ∧ e.Plain

/-- Never started, in negotiation or connected, or closed. -/
inductive Phase (p : PeerControl) : Prop where
  | rejected (h : World.Rejected p) (log : ∀ e ∈ p.log, e.Plain)
  | live (h : p.Live) (log : ∀ e ∈ p.log, e.Plain)
  | closed (h : p.Closed)

theorem Phase.of_live {p : PeerControl} (h : p.Phase) (hl : p.Live) : ∀ e ∈ p.log, e.Plain := by
  cases h with
  | rejected h log => exact log
  | live h log => exact log
  | closed h => exact absurd hl.state (by simp [h.state])

theorem Closed.callback {p : PeerControl} (h : p.Closed) {cb : Callback} (hq : p.QuietReport cb) :
    Closed (World.logged (p.callback cb)) := by
  have hk := callback_keeps p cb
  obtain ⟨hs, hlate⟩ := callback_late (Or.inr h.state) (hq h.peerConnection)
  obtain ⟨pre, mid, post, code, hlog, hpre, hmid, hpost⟩ := h.log
  refine ⟨hs.trans h.state, hk.peerConnection.trans h.peerConnection, pre, mid,
    post ++ (p.callback cb).2, code, ?_, hpre, hmid, ?_⟩
  · simp only [World.logged, hk.log, hk.remoteId, hlog, List.append_assoc, List.cons_append]
  · intro e he
    rcases List.mem_append.mp he with he | he
    · exact hpost e he
    · exact ⟨hlate e he, callback_plain p cb e he⟩

theorem Live.close_closed {p : PeerControl} (h : p.Live) (hlog : ∀ e ∈ p.log, e.Plain)
    (code : CloseCode) {cbs : List Callback} (hq : ∀ cb ∈ cbs, cb.Quiet) :
    Closed (World.logged ((p.close code cbs).1, .removed :: (p.close code cbs).2)) := by
  have hk := callbacks_keeps p.closingPeer cbs
  rw [h.close_eq]
  refine ⟨rfl, hk.peerConnection, p.log, (p.closingPeer.callbacks cbs).2, [], code, ?_, hlog,
    callbacks_late (Or.inl rfl) hq, by simp⟩
  simp only [World.logged, hk.log, hk.remoteId]
  rfl

end PeerControl

namespace World

open Base PeerControl

variable {env : Env}

/-- Every object is in one of the phases, if WebRTC is quiet after a release. -/
theorem phase_stable (hq : env.Quiet) : Stable env PeerControl.QuietReport Phase where
  begun h := .live h.toLive (by simp [h.log])
  rejected c localId remoteId := .rejected ⟨rfl, rfl, rfl⟩ (by simp [PeerControl.new])
  callback {p cb} hs hr hp := by
    have hk := callback_keeps p cb
    have plain (hlog : ∀ e ∈ p.log, e.Plain) : ∀ e ∈ (logged (p.callback cb)).log, e.Plain := by
      intro e he
      simp only [logged, hk.log] at he
      rcases List.mem_append.mp he with he | he
      · exact hlog e he
      · exact callback_plain p cb e he
    cases hp with
    | rejected h log => exact absurd hs.role (by simp [h.role])
    | live h log =>
      obtain ⟨⟨h1, h2, h3⟩, h4, h5⟩ := h.keeps hk
      exact .live ⟨⟨h1, h2, h3⟩, h4, h5⟩ (plain log)
    | closed h => exact .closed (h.callback hr)
  answered {p} sdp origin hl hp := by
    refine .live ⟨⟨hl.role, hl.localChannel, hl.pending⟩, hl.state, hl.peerConnection⟩ fun e he => ?_
    rcases List.mem_append.mp he with he | he
    · exact hp.of_live hl e he
    · rw [List.mem_singleton.mp he]
      trivial
  candidate {p} candidates hl hp :=
    .live ⟨⟨hl.role, hl.localChannel, hl.pending⟩, hl.state, hl.peerConnection⟩ (hp.of_live hl)
  closed {p} x code hl hp := .closed (hl.close_closed (hp.of_live hl) code (hq x))
  released {p} hp := by
    cases hp with
    | rejected h log => exact .rejected ⟨h.role, h.pending, h.state⟩ log
    | live h log =>
      exact .live ⟨⟨h.role, h.localChannel, h.pending⟩, h.state, h.peerConnection⟩ log
    | closed h => exact .closed ⟨h.state, h.peerConnection, h.log⟩

theorem Plain.countP {es : List Effect} (h : ∀ e ∈ es, e.Plain) :
    es.countP Effect.isOnPeerClose = 0 := by
  rw [List.countP_eq_zero]
  intro e he hc
  have := h e he
  cases e with
  | onPeerClose => exact this
  | _ => cases hc

theorem Plain.notMem_closing {es : List Effect} (h : ∀ e ∈ es, e.Plain) : .closing ∉ es :=
  fun hc => h _ hc

/-- However WebRTC orders its callbacks and however many close requests there are,
`OnPeerClose` is called at most once for an instance, and once if `ClosePeer`
removed it; from `Close` on it requests no close and sends no description. -/
theorem onPeerClose_once (env : Env) (hq : env.Quiet) (as : List Action)
    (ha : Along (step env) (Reports PeerControl.QuietReport) init as) (x : ℕ)
    (hx : x < (run (step env) init as).nextInst) :
    ((run (step env) init as).insts x).log.countP Effect.isOnPeerClose ≤ 1 ∧
    (.removed ∈ ((run (step env) init as).insts x).log →
      ((run (step env) init as).insts x).log.countP Effect.isOnPeerClose = 1) ∧
    ∀ pre post, ((run (step env) init as).insts x).log = pre ++ .closing :: post →
      ∀ e ∈ post, e.Late := by
  have hp := (phase_stable hq).run ha x hx
  generalize (run (step env) init as).insts x = p at hp
  have plain (log : ∀ e ∈ p.log, e.Plain) : p.log.countP Effect.isOnPeerClose ≤ 1 ∧
      (.removed ∈ p.log → p.log.countP Effect.isOnPeerClose = 1) ∧
      ∀ pre post, p.log = pre ++ .closing :: post → ∀ e ∈ post, e.Late :=
    ⟨by simp [Plain.countP log], fun h => (log _ h).elim,
      fun pre post h => (log .closing (by simp [h])).elim⟩
  cases hp with
  | rejected h log => exact plain log
  | live h log => exact plain log
  | closed h =>
    obtain ⟨pre, mid, post, code, hlog, hpre, hmid, hpost⟩ := h.log
    have hone : p.log.countP Effect.isOnPeerClose = 1 := by
      rw [hlog]
      simp [List.countP_append, List.countP_cons, Plain.countP hpre,
        Plain.countP fun e he => (hmid e he).2, Plain.countP fun e he => (hpost e he).2,
        Effect.isOnPeerClose]
    refine ⟨hone.le, fun _ => hone, fun pre' post' h' => ?_⟩
    -- the mark occurs once, so what follows it is what followed it in `Close`
    have hmem : Effect.closing ∉ mid ++ .onPeerClose p.remoteId code :: post := by
      simp [Plain.notMem_closing fun e he => (hmid e he).2,
        Plain.notMem_closing fun e he => (hpost e he).2]
    rw [hlog, show pre ++ Effect.removed :: .closing :: (mid ++ .onPeerClose p.remoteId code :: post)
      = (pre ++ [.removed]) ++ .closing :: (mid ++ .onPeerClose p.remoteId code :: post) by simp] at h'
    obtain ⟨-, -, rfl⟩ := (List.append_cons_inj_of_notMem
      (by simp [Plain.notMem_closing hpre]) hmem).mp h'
    intro e he
    rcases List.mem_append.mp he with he | he
    · exact (hmid e he).1
    · rcases List.mem_cons.mp he with rfl | he
      · trivial
      · exact (hpost e he).1

/-- The user closes a connection twice while its offer is still being made. -/
def closedTwice : List Action :=
  [.api .open, .net (.connectInternal true), .net (.onOpen 0),
    .command (createOfferMessage ["b"]) none, .process, .api (.close "b"), .api (.close "b"),
    .process, .callback 0 (.onSuccess (some "v=0")), .process]

theorem onPeerClose_once_closedTwice :
    ((run (step (Env.idle "a" (by decide))) init closedTwice).insts 0).log.countP
      Effect.isOnPeerClose = 1 := by
  have h := onPeerClose_once (Env.idle "a" (by decide)) (fun _ _ h => by cases h) closedTwice
    ⟨trivial, trivial, trivial, trivial, trivial, trivial, trivial, trivial, fun _ => trivial,
      trivial, trivial⟩ 0 (by decide +kernel)
  exact h.2.1 (Effect.removed_mem.mpr (by decide +kernel))

end World

end PeerApi
