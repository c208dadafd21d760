import PeerApi.Session.CloseEvents
import PeerApi.Session.LocalClose

/-! Peers are isolated from each other. What the server says about one remote id, and
what WebRTC reports to its `PeerControl`, changes no entry of another id, raises no
event of another id and leaves the session alone. The exception is a close of the
peer's own id: `Peer::OnClose` knows it by comparing the ids only, so that a server
which names the local id as a remote peer ends the session.

Of WebRTC it is assumed that data channels report no opening while their peer
connection is released. -/

namespace PeerApi

/-- The peer an event is about. -/
def Event.peerId : Event → String
  | .open peerId => peerId
  | .close peerId _ _ => peerId
  | .connect peerId => peerId
  | .message peerId _ => peerId
  | .writable peerId => peerId

/-- An event of a connection to `id`. -/
def Event.About (id : String) (e : Event) : Prop := e.peerId = id ∧ ∀ id', e ≠ .open id'

theorem Event.About.eq_of_closes {e : Event} {id id' : String} (h : e.About id)
    (hc : e.Closes id') : id = id' := by
  cases e with
  | close peerId code desc => exact h.1.symm.trans hc
  | «open» => exact hc.elim
  | connect => exact hc.elim
  | message => exact hc.elim
  | writable => exact hc.elim

/-- A report that the connection is gone: the ICE state is disconnected or closed, a
data channel is closed, or a replaced channel closes. -/
def Callback.Disconnects : Callback → Prop
  | .onIceConnectionChange state => state = .disconnected ∨ state = .closed
  | .onStateChange _ state => state = .closed
  | .onDataChannel _ _ oldCloses => oldCloses = true
  | _ => False

namespace PeerControl

/-- A disconnect callback does nothing but request the close of its object. -/
theorem callback_disconnects {p : PeerControl} {cb : Callback} (h : cb.Disconnects) :
    ∀ f ∈ (p.callback cb).2, f = .closePeer p.remoteId .goingAway := by
  have hr := callback_raises p cb
  generalize (p.callback cb).1 = q, (p.callback cb).2 = es at hr
  cases hr with
  | nothing => simp
  | disconnected => simp
  | opened side => cases h
  | described => exact h.elim
  | candidate => exact h.elim
  | message => exact h.elim
  | writable => exact h.elim
  | crashed => exact h.elim

/-- The events of quiet callbacks are about the remote id. -/
theorem callback_about {p : PeerControl} {cb : Callback} (hq : cb.Quiet) :
    ∀ f ∈ (p.callback cb).2, ∀ e, f.event? = some e → e.About p.remoteId := by
  have hr := callback_raises p cb
  generalize (p.callback cb).1 = q, (p.callback cb).2 = es at hr
  cases hr with
  | opened side => simp [Callback.Quiet] at hq
  | _ => simp [Effect.event?, Event.About, Event.peerId]

theorem callbacks_about {p : PeerControl} {cbs : List Callback} (hq : ∀ cb ∈ cbs, cb.Quiet) :
    ∀ f ∈ (p.callbacks cbs).2, ∀ e, f.event? = some e → e.About p.remoteId := by
  induction cbs generalizing p with
  | nil => simp [callbacks]
  | cons cb cbs ih =>
    intro f hf e he
    rcases List.mem_append.mp hf with hf | hf
    · exact callback_about (hq cb List.mem_cons_self) f hf e he
    · have h := ih (fun cb' h' => hq cb' (List.mem_cons_of_mem cb h')) f hf e he
      rwa [(callback_keeps p cb).remoteId] at h

/-- So are the events of a close. -/
theorem Live.close_about {p : PeerControl} (h : p.Live) (code : CloseCode) {cbs : List Callback}
    (hq : ∀ cb ∈ cbs, cb.Quiet) :
    ∀ f ∈ (p.close code cbs).2, ∀ e, f.event? = some e → e.About p.remoteId := by
  rw [h.close_eq]
  intro f hf e he
  simp only [List.cons_append, List.mem_cons, List.mem_append, List.not_mem_nil, or_false] at hf
  rcases hf with rfl | hf | rfl
  · cases he
  · exact callbacks_about hq f hf e he
  · cases he
    exact ⟨rfl, by simp⟩

end PeerControl

namespace World

open Base Relation

variable {env : Env} {w w' : World} {c : ℕ} {p : String}

/-! ### The session during calls -/

/-- The installed control and `close_once_` are as before. -/
structure SameSession (w w' : World) : Prop where
  control : ∀ c, w.control = some c → w'.control = some c
  closeOnce : w'.closeOnce = w.closeOnce

theorem SameSession.refl (w : World) : SameSession w w := ⟨fun _ => id, rfl⟩

theorem SameSession.trans {w'' : World} (h : SameSession w w') (h' : SameSession w' w'') :
    SameSession w w'' :=
  ⟨fun c hc => h'.control c (h.control c hc), h'.closeOnce.trans h.closeOnce⟩

theorem Moves.sameSession {src : ℕ → Effect → Prop} (h : Moves env src w w') :
    SameSession w w' := by
  induction h with
  | refl => exact .refl w
  | tail _ hm ih => exact ih.trans ⟨fun _ hc => hm.holds hc, hm.closeOnce⟩

theorem callEventHandler_sameSession (env : Env) (hl : ChannelsSet w) (source : Option ℕ) (e : Event) :
    SameSession w (w.callEventHandler env source e) := by
  unfold callEventHandler
  split_ifs
  · have hl' : ChannelsSet { w with obs := w.obs ++ [.handler w.control source e] } := hl
    have h : Moves env nobody _ _ :=
      apis_moves hl' (env.handler (w.obs ++ [.handler w.control source e]))
    exact ⟨h.sameSession.control, h.sameSession.closeOnce⟩
  · exact .refl w

/-- An event leaves the session alone, unless it is the first report of the local
close. -/
theorem observe_sameSession (hl : ChannelsSet w) (source : Option ℕ) {e : Event}
    (hopen : ∀ id, e ≠ .open id) (hlocal : e.Closes env.peerId → w.closeOnce = true) :
    SameSession w (w.observe env c source e) := by
  unfold observe
  split_ifs
  · exact .refl w
  · have ho : SameSession w { w with obs := w.obs ++ [.observer c source e] } := ⟨fun _ => id, rfl⟩
    refine ho.trans ?_
    have hcall := callEventHandler_sameSession env
      (w := { w with obs := w.obs ++ [.observer c source e] }) hl source e
    cases e with
    | «open» id => exact absurd rfl (hopen id)
    | close peerId code desc =>
      simp only [notify, peerOnClose]
      split_ifs with hid honce
      · exact .refl _
      · exact absurd (hlocal hid) honce
      · exact hcall
    | connect => exact hcall
    | message => exact hcall
    | writable => exact hcall
  · exact ⟨fun _ => id, rfl⟩

/-! ### What is left alone -/

/-- Everything but the connection to `p` is as before. -/
structure Spares (p : String) (w w' : World) : Prop extends SameSession w w' where
  peers : ∀ d q, q ≠ p → (w'.controls d).peers.find? q = (w.controls d).peers.find? q
  insts : ∀ d q x, q ≠ p → (w.controls d).peers.find? q = some x → w'.insts x = w.insts x
  obs : Observes (fun o => ∀ e, o.event? = some e → e.peerId = p) w w'

theorem Spares.refl (p : String) (w : World) : Spares p w w :=
  ⟨.refl w, fun _ _ _ => rfl, fun _ _ _ _ _ => rfl, .of_eq rfl⟩

theorem Spares.trans {w'' : World} (h : Spares p w w') (h' : Spares p w' w'') :
    Spares p w w'' where
  toSameSession := h.toSameSession.trans h'.toSameSession
  peers d q hq := (h'.peers d q hq).trans (h.peers d q hq)
  insts d q x hq hx := by
    rw [← h.insts d q x hq hx]
    rw [← h.peers d q hq] at hx
    exact h'.insts d q x hq hx
  obs := h.obs.trans h'.obs

theorem Spares.of_same (hs : SameRegistry w w') (hsession : SameSession w w')
    (hobs : Observes (fun o => ∀ e, o.event? = some e → e.peerId = p) w w') : Spares p w w' :=
  ⟨hsession, fun d q _ => by rw [hs.peers], fun d q x _ _ => by rw [hs.insts], hobs⟩

theorem Calls.sameSession {raises : ℕ → Event → Prop} {src : ℕ → Effect → Prop}
    (h : Calls env raises src w w') (hl : ChannelsSet w)
    (hopen : ∀ d e, raises d e → ∀ id, e ≠ .open id)
    (hlocal : ∀ d e, raises d e → e.Closes env.peerId → w.closeOnce = true) : SameSession w w' := by
  refine (calls_invariant (P := fun w₁ => ChannelsSet w₁ ∧ SameSession w w₁)
    (fun {w₁ w₂} h hw => ⟨hw.1.same h.same, hw.2.trans ?_⟩) h ⟨hl, .refl w⟩).2
  obtain ⟨hl, hw⟩ := hw
  cases h with
  | move h => exact Moves.sameSession (.single h)
  | event c source e running set ok admits moves =>
    refine observe_sameSession hl source (hopen c e admits) fun hc => ?_
    exact hw.closeOnce.trans (hlocal c e admits hc)

/-- Calls deliver only the events that may be raised. -/
theorem Calls.delivers {raises : ℕ → Event → Prop} {src : ℕ → Effect → Prop}
    (h : Calls env raises src w w') :
    Observes (fun o => ∀ e, o.event? = some e → ∃ d, raises d e) w w' := by
  refine Appends.of_steps (fun {w w'} h => ?_) h
  cases h with
  | move h => exact .of_eq h.obs
  | event c source e running set ok admits moves =>
    refine (Appends.of_steps EventMove.observes moves).mono fun o ho e' he => ⟨c, ?_⟩
    rw [ho.2 e' he]
    exact admits

/-- Calls about `p` spare everything else. -/
theorem Calls.spares {raises : ℕ → Event → Prop} {src : ℕ → Effect → Prop}
    (h : Calls env raises src w w') (hr : ∀ d e, raises d e → e.About p) (hl : ChannelsSet w)
    (hlocal : ∀ d e, raises d e → e.Closes env.peerId → w.closeOnce = true) : Spares p w w' := by
  refine .of_same h.same (h.sameSession hl (fun d e he => (hr d e he).2) hlocal) ?_
  refine h.delivers.mono fun o ho e he => ?_
  obtain ⟨d, hd⟩ := ho e he
  exact (hr d e hd).1

theorem setInst_spares (hw : Sound env w) {x : ℕ} (hx : (w.insts x).remoteId = p)
    (q : PeerControl) : Spares p w (w.setInst x q) := by
  refine ⟨⟨fun _ => id, rfl⟩, fun _ _ _ => rfl, fun d k y hk hy => ?_, .of_eq rfl⟩
  refine setInst_insts_ne ?_ q w
  rintro rfl
  exact hk ((hw.entries d k y hy).remoteId.symm.trans hx)

theorem newInst_spares (hw : Sound env w) (q : PeerControl) : Spares p w (w.newInst q) :=
  ⟨⟨fun _ => id, rfl⟩, fun _ _ _ => rfl,
    fun d k y _ hy => newInst_insts_lt (hw.bound d k y hy), .of_eq rfl⟩

/-! ### The handlers -/

theorem register_spares (hw : Sound env w) {q : PeerControl} (hq : q.remoteId = p) :
    Spares p w (w.register c q) := by
  have h := newInst_spares (p := p) hw q
  refine ⟨⟨h.control, h.closeOnce⟩, fun d k hk => ?_, h.insts, .of_eq rfl⟩
  rw [register_find?, if_neg (fun h => hk (h.2.trans hq))]

theorem reject_spares (hw : Sound env w) (hc : (w.controls c).thread = true)
    (failed : (env.initOutcome w.nextInst).ok = false)
    (hp : p = env.peerId → w.closeOnce = true) :
    Spares p w (w.reject env c (newPeer env c p w).1) := by
  have hid : (newPeer env c p w).1.remoteId = p := by rw [newPeer_failed failed]; rfl
  refine (newInst_spares hw (newPeer env c p w).1).trans ?_
  have hw' := hw.reject p hc failed
  have h : Calls env (fun _ e => e.About p) nobody (w.newInst (newPeer env c p w).1)
      (w.reject env c (newPeer env c p w).1) :=
    observeIfSet_calls hw'.channelsSet (Or.inr ⟨_, _, _, rfl⟩) ⟨hid, by simp⟩
  exact h.spares (fun _ _ h => h) hw'.channelsSet fun _ _ h hc => hp (h.eq_of_closes hc)

theorem receiveOfferSdp_spares (hw : Sound env w) (hc : (w.controls c).thread = true)
    (data : Json) (origin : Option ℕ)
    (hp : env.peerId ∈ (planned env w.nextInst "offersdp" p data).2 → w.closeOnce = true) :
    Spares p w (w.receiveOfferSdp env c p data origin) := by
  simp only [planned, String.reduceEq, if_true, if_false] at hp
  unfold receiveOfferSdp
  cases hsdp : env.rtc.getStringFromJsonObject data "sdp" with
  | none => exact .refl p w
  | some sdp =>
    rw [hsdp] at hp
    dsimp only at hp ⊢
    by_cases ok : (env.initOutcome w.nextInst).ok = true
    · rw [if_pos (by rw [newPeer_ok ok])]
      refine register_spares hw ?_
      rw [newPeer_ok ok]
      rfl
    · have failed : (env.initOutcome w.nextInst).ok = false := by simpa using ok
      rw [if_neg ok] at hp
      rw [if_neg (by rw [newPeer_failed failed]; simp)]
      refine reject_spares hw hc failed fun h => hp ?_
      rw [h]
      rfl

theorem receiveAnswerSdp_spares (hw : Sound env w) (c : ℕ) (p : String) (data : Json)
    (origin : Option ℕ) : Spares p w (w.receiveAnswerSdp env c p data origin) := by
  unfold receiveAnswerSdp
  cases env.rtc.getStringFromJsonObject data "sdp" with
  | none => exact .refl p w
  | some sdp =>
    dsimp only
    cases hx : (w.controls c).peers.find? p with
    | none => exact .refl p w
    | some x =>
      have he := hw.entries c p x hx
      simp only [runPeer, he.live.receiveAnswerSdp_eq, List.foldl_cons, List.foldl_nil, perform,
        ite_self]
      exact setInst_spares hw he.remoteId _

theorem addIceCandidate_spares (hw : Sound env w) (c : ℕ) (p : String) (data : Json) :
    Spares p w (w.addIceCandidate env c p data) := by
  unfold addIceCandidate
  split
  · cases hx : (w.controls c).peers.find? p with
    | none => exact .refl p w
    | some x =>
      have he := hw.entries c p x hx
      simp only [runPeer, he.live.addIceCandidate_eq, List.foldl_nil]
      exact setInst_spares hw he.remoteId _
  · exact .refl p w

theorem removePeer_spares (hw : Sound env w) {x : ℕ} (hx : (w.controls c).peers.find? p = some x)
    (code : CloseCode) : Spares p w (w.removePeer env c p x code) := by
  have h := setInst_spares hw (hw.entries c p x hx).remoteId
    (logged (((w.insts x).close code (env.onRelease x)).1, removeEffects env x code w))
  refine ⟨⟨h.control, h.closeOnce⟩, fun d k hk => ?_, h.insts, .of_eq rfl⟩
  rw [removePeer_find?, if_neg fun h => hk h.2]

/-- The events of a removal are about the removed peer. -/
theorem removeEffects_about (hq : env.Quiet) (hw : Sound env w) {x : ℕ}
    (hx : (w.controls c).peers.find? p = some x) (code : CloseCode) :
    ∀ f ∈ removeEffects env x code w, ∀ e, f.event? = some e → e.About p := by
  have he := hw.entries c p x hx
  intro f hf e hfe
  rcases List.mem_cons.mp hf with rfl | hf
  · cases hfe
  · rw [← he.remoteId]
    exact he.live.close_about code (hq x) f hf e hfe

theorem closePeer_spares (hq : env.Quiet) (hw : Sound env w) (c : ℕ) (code : CloseCode) (p : String)
    (hp : ((w.controls c).peers.find? p).isSome = true → p = env.peerId → w.closeOnce = true) :
    Spares p w (w.closePeer env c code p) := by
  cases hx : (w.controls c).peers.find? p with
  | none =>
    simp only [closePeer, hx]
    exact .refl p w
  | some x =>
    have h : Calls env (fun _ e => e.About p) _ _ (w.closePeer env c code p) :=
      closePeer_calls_of hw hx code (removeEffects_about hq hw hx code)
    refine (removePeer_spares hw hx code).trans
      (h.spares (fun _ _ h => h) (hw.removePeer hx code).channelsSet fun _ _ h hc => ?_)
    exact hp (by rw [hx]; rfl) (h.eq_of_closes hc)

theorem callback_spares (hw : Reached env w) {x : ℕ} {cb : Callback} (hcb : cb.Disconnects) :
    Spares (w.insts x).remoteId w (w.act env (.callback x cb)) := by
  by_cases hx : x < w.nextInst ∧ (w.insts x).released = false
  · have hs := (hw.toSound.callback (hw.settled x hx.1 hx.2) cb).channelsSet
    refine (setInst_spares hw.toSound rfl (logged ((w.insts x).callback cb))).trans
      (Calls.spares (callback_calls_of (fun _ _ => False) hw hx fun f hf e he => ?_)
        (fun _ _ h => h.elim) hs (fun _ _ h => h.elim))
    rw [PeerControl.callback_disconnects hcb f hf] at he
    cases he
  · simp only [act, if_neg hx]
    exact .refl _ w

/-! ### Messages -/

/-- The commands of the server about one remote peer. -/
def peerCommands : List String := ["offersdp", "answersdp", "ice_candidate", "peerclosed"]

theorem onCommandReceived_peer_cases {motive : World → Prop} {message data : Json}
    {command peerId : String} (hp : parseCommand env message = some (command, peerId, data))
    (hc : command ∈ peerCommands) (c : ℕ) (origin : Option ℕ)
    (offered : command = "offersdp" → motive (w.receiveOfferSdp env c peerId data origin))
    (answered : command = "answersdp" → motive (w.receiveAnswerSdp env c peerId data origin))
    (candidate : command = "ice_candidate" → motive (w.addIceCandidate env c peerId data))
    (closed : command = "peerclosed" → motive (w.closePeer env c .normal peerId)) :
    motive (w.onCommandReceived env c message origin) := by
  rw [onCommandReceived_some hp]
  simp only [peerCommands, List.mem_cons, List.not_mem_nil, or_false] at hc
  rcases hc with rfl | rfl | rfl | rfl
  · simpa only [String.reduceEq, if_true, if_false] using offered rfl
  · simpa only [String.reduceEq, if_true, if_false] using answered rfl
  · simpa only [String.reduceEq, if_true, if_false] using candidate rfl
  · simpa only [String.reduceEq, if_true, if_false] using closed rfl

/-- A command of the server that names `p`, or a request to close the connection to
it. -/
def Concerns (env : Env) (p : String) (m : Message) : Prop :=
  match m.messageId, parseCommand env m.data.dataJson with
  | .commandReceived, some (command, peerId, _) => peerId = p ∧ command ∈ peerCommands
  | .closePeer, _ => m.data.dataString = p
  | _, _ => False

instance (env : Env) (p : String) (m : Message) : Decidable (Concerns env p m) := by
  unfold Concerns
  split <;> infer_instance

theorem onMessage_spares (hq : env.Quiet) (hw : Sound env w) {m : Message}
    (hc : (w.controls m.handler).thread = true) (hm : Concerns env p m)
    (hp : env.peerId ∈ closedIds env w m → w.closeOnce = true) :
    Spares p w (w.onMessage env m) := by
  unfold Concerns at hm
  unfold closedIds at hp
  unfold onMessage
  cases hid : m.messageId with
  | commandReceived =>
    cases hparse : parseCommand env m.data.dataJson with
    | none => simp [hid, hparse] at hm
    | some parsed =>
      obtain ⟨command, peerId, data⟩ := parsed
      simp only [hid, hparse] at hm hp
      obtain ⟨rfl, hcommand⟩ := hm
      refine onCommandReceived_peer_cases (motive := Spares peerId w) hparse hcommand _ _ ?_ ?_ ?_ ?_
      · rintro rfl
        refine receiveOfferSdp_spares hw hc data m.origin fun h => hp ?_
        simpa [commandCloses] using h
      · exact fun _ => receiveAnswerSdp_spares hw _ _ data m.origin
      · exact fun _ => addIceCandidate_spares hw _ _ data
      · rintro rfl
        refine closePeer_spares hq hw _ _ _ fun hsome h => hp ?_
        rw [← h]
        simp [commandCloses, hsome]
  | closePeer =>
    simp only [hid] at hm hp
    subst hm
    refine closePeer_spares hq hw _ _ _ fun hsome h => hp ?_
    rw [← h]
    simp [hsome]
  | close => simp [hid] at hm
  | onPeerClose => simp [hid] at hm
  | onSignalConnectionClose => simp [hid] at hm

/-! ### Steps -/

/-- The action is about the connection of control `c` to `p`: a message that concerns
it or a disconnect callback of a `PeerControl` for it. -/
def ConcernsPeer (env : Env) (w : World) (c : ℕ) (p : String) : Action → Prop
  | .process => ∃ m ∈ w.queue.head?, m.handler = c ∧ Concerns env p m
  | .callback x cb => (w.insts x).remoteId = p ∧ cb.Disconnects
  | _ => False

instance : (cb : Callback) → Decidable cb.Disconnects
  | .onIceConnectionChange state =>
    inferInstanceAs (Decidable (state = .disconnected ∨ state = .closed))
  | .onStateChange _ state => inferInstanceAs (Decidable (state = .closed))
  | .onDataChannel _ _ oldCloses => inferInstanceAs (Decidable (oldCloses = true))
  | .onSuccess _ => inferInstanceAs (Decidable False)
  | .onFailure => inferInstanceAs (Decidable False)
  | .onIceCandidate _ _ _ => inferInstanceAs (Decidable False)
  | .channelState _ _ => inferInstanceAs (Decidable False)
  | .onMessage _ _ => inferInstanceAs (Decidable False)
  | .bufferedAmount _ _ => inferInstanceAs (Decidable False)
  | .onBufferedAmountChange _ => inferInstanceAs (Decidable False)

instance (env : Env) (w : World) (c : ℕ) (p : String) :
    (a : Action) → Decidable (ConcernsPeer env w c p a)
  | .process => inferInstanceAs (Decidable (∃ m ∈ w.queue.head?, m.handler = c ∧ Concerns env p m))
  | .callback x cb => inferInstanceAs (Decidable ((w.insts x).remoteId = p ∧ cb.Disconnects))
  | .api _ => inferInstanceAs (Decidable False)
  | .command _ _ => inferInstanceAs (Decidable False)
  | .net _ => inferInstanceAs (Decidable False)

/-- The action leaves the other connections of control `c` and the session alone, and
raises no event of another id. -/
structure Isolated (env : Env) (w : World) (c : ℕ) (p : String) (a : Action) : Prop where
  peers : ∀ q, q ≠ p →
    ((w.step env a).controls c).peers.find? q = (w.controls c).peers.find? q
  insts : ∀ q x, q ≠ p → (w.controls c).peers.find? q = some x →
    (w.step env a).insts x = w.insts x
  events : ∀ o ∈ newObs env w a, ∀ e, o.event? = some e → e.peerId = p
  control : (w.step env a).control = w.control
  observer : ((w.step env a).controls c).observer = (w.controls c).observer

/-- A message reports the local id as closed only when the session knows it already. -/
def KeepsSession (env : Env) (w : World) : Action → Prop
  | .process => ∀ m ∈ w.queue.head?, env.peerId ∈ closedIds env w m → w.closeOnce = true
  | _ => True

instance (env : Env) (w : World) : (a : Action) → Decidable (KeepsSession env w a)
  | .process => inferInstanceAs (Decidable (∀ m ∈ w.queue.head?,
      env.peerId ∈ closedIds env w m → w.closeOnce = true))
  | .api _ => inferInstanceAs (Decidable True)
  | .command _ _ => inferInstanceAs (Decidable True)
  | .net _ => inferInstanceAs (Decidable True)
  | .callback _ _ => inferInstanceAs (Decidable True)

theorem act_spares (hq : env.Quiet) (hw : Reached env w) {a : Action}
    (ha : ConcernsPeer env w c p a) (hk : KeepsSession env w a) : Spares p w (w.act env a) := by
  cases a with
  | process =>
    obtain ⟨m, hm, rfl, hp⟩ := ha
    cases hqueue : w.queue with
    | nil => simp [hqueue] at hm
    | cons m' queue =>
      obtain rfl : m' = m := by simpa [hqueue] using hm
      have hs : Sound env { w with queue := queue } :=
        (Tick.dequeued w m' queue hqueue : Tick env .free w _).sound hw.toSound
      have hc := hw.queued m' (by rw [hqueue]; exact List.mem_cons_self)
      have hd : Spares p w { w with queue := queue } :=
        ⟨⟨fun _ => id, rfl⟩, fun _ _ _ => rfl, fun _ _ _ _ _ => rfl, .of_eq rfl⟩
      simp only [act, process, hqueue]
      exact hd.trans (onMessage_spares hq hs hc hp (hk m' hm))
  | callback x cb =>
    obtain ⟨rfl, hcb⟩ := ha
    exact callback_spares hw hcb
  | api a => exact ha.elim
  | command message origin => exact ha.elim
  | net a => exact ha.elim

theorem step_running (hf : w.fault = none) (a : Action) :
    w.step env a = (w.act env a).releaseControls.releaseInsts := by
  rw [step, if_neg (by simp [hf])]

theorem act_sound (hw : Reached env w) (a : Action) : Sound env (w.act env a) :=
  (act_ticks hw (admitted_free env w a)).sound hw.toSound

theorem not_dying (hc : w.control = some c) : ¬ w.Dying c := by
  rintro ⟨-, -, hheld⟩
  simp [controlHeld, hc] at hheld

theorem isolated_of_keepsSession (hq : env.Quiet) (hw : Reached env w) (hf : w.fault = none)
    (hc : w.control = some c) {a : Action} (ha : ConcernsPeer env w c p a)
    (hk : KeepsSession env w a) : Isolated env w c p a := by
  have h := act_spares hq hw ha hk
  have hs := act_sound hw a
  have hcontrol := h.control c hc
  have hstays : (w.act env a).releaseControls.controls c = (w.act env a).controls c :=
    releaseControls_stays (not_dying hcontrol)
  refine ⟨fun q hqp => ?_, fun q x hqp hx => ?_, fun o ho e he => ?_, ?_, ?_⟩
  · rw [step_running hf, ← h.peers c q hqp, ← hstays]
    rfl
  · have hx' : ((w.act env a).releaseControls.controls c).peers.find? q = some x := by
      rw [hstays, h.peers c q hqp, hx]
    rw [step_running hf, releaseInsts_stays (hs.releaseControls.not_lost hx'),
      ← h.insts c q x hqp hx]
    rfl
  · obtain ⟨os, hos, hall⟩ := h.obs
    rw [newObs, hos, List.drop_left] at ho
    exact hall o ho e he
  · rw [step_running hf, hc, ← hcontrol]
    rfl
  · have hset := (hs.installed c hcontrol).1
    rw [step_running hf, (hw.installed c hc).1, ← hset, ← hstays]
    rfl

/-! ### The local id as a remote id -/

theorem dropControl_drops (hc : w.control = some c) {session source : Option ℕ}
    (hf : (w.dropControl.logClosed session source).fault = none) :
    (w.dropControl.logClosed session source).control = none := by
  by_cases h : w.fault = none
  · simp only [dropControl, logClosed, modifyControl, h, hc, Option.isSome_none, Bool.false_eq_true,
      if_false]
  · have hsome : w.fault.isSome = true := Option.isSome_iff_ne_none.mpr h
    simp only [dropControl, logClosed, hsome, if_true] at hf
    exact absurd hf h

/-- The first report of the local close drops the control. -/
theorem observe_drops (hl : ChannelsSet w) (running : w.fault = none)
    (hset : (w.controls c).observer = true) (hc : w.control = some c) (once : w.closeOnce = false)
    (source : Option ℕ) {e : Event} (he : e.Closes env.peerId)
    (hf : (w.observe env c source e).fault = none) : (w.observe env c source e).control = none := by
  cases e with
  | close peerId code desc =>
    obtain rfl : peerId = env.peerId := he
    have hr : w.fault.isSome = false := by simp [running]
    simp only [observe, hr, hset, Bool.false_eq_true, if_true, if_false, notify, peerOnClose,
      once] at hf ⊢
    refine dropControl_drops (c := c) ?_ hf
    exact (callEventHandler_sameSession env (w := { w with
      closeOnce := true
      obs := w.obs ++ [.observer c source (.close env.peerId code desc)] }) hl source _).control c hc
  | «open» => exact he.elim
  | connect => exact he.elim
  | message => exact he.elim
  | writable => exact he.elim

/-- The world in which instance `x` has been erased and its peer connection released,
before it reports its close. -/
def releasePeer (env : Env) (c : ℕ) (k : String) (x : ℕ) (code : CloseCode) (w : World) : World :=
  (.removed :: .closing :: ((w.insts x).closingPeer.callbacks (env.onRelease x)).2).foldl
    (perform env x) (w.removePeer env c k x code)

theorem closePeer_eq (hw : Sound env w) {k : String} {x : ℕ}
    (hx : (w.controls c).peers.find? k = some x) (code : CloseCode) :
    w.closePeer env c code k =
      ((w.releasePeer env c k x code).perform env x (.onPeerClose k code)).leaveChannel k := by
  have he := hw.entries c k x hx
  have hclose := he.live.close_eq code (env.onRelease x)
  simp only [closePeer, hx, runPeer, releasePeer, removePeer, removeEffects, logged,
    modifyControl_insts, hclose, he.remoteId, List.foldl_cons, List.cons_append, List.foldl_append,
    List.foldl_nil]

theorem releasePeer_calls (raises : ℕ → Event → Prop) (hw : Sound env w) {k : String} {x : ℕ}
    (hx : (w.controls c).peers.find? k = some x) (code : CloseCode)
    (hr : ∀ f ∈ ((w.insts x).closingPeer.callbacks (env.onRelease x)).2, ∀ e,
      f.event? = some e → raises c e) :
    Calls env raises (performing x (removeEffects env x code w)) (w.removePeer env c k x code)
      (w.releasePeer env c k x code) := by
  have hl := hw.entries c k x hx
  obtain ⟨hs, hok⟩ := removePeer_effects env hl.live c k code
  have hsub : ∀ f ∈ .removed :: .closing ::
      ((w.insts x).closingPeer.callbacks (env.onRelease x)).2, f ∈ removeEffects env x code w := by
    intro f hf
    simp only [removeEffects, hl.live.close_eq, List.cons_append, List.mem_cons, List.mem_append]
    simp only [List.mem_cons] at hf
    rcases hf with hf | hf | hf
    · exact Or.inl hf
    · exact Or.inr (Or.inl hf)
    · exact Or.inr (Or.inr (Or.inl hf))
  refine performs_calls (hw.removePeer hx code).channelsSet (fun f hf => ⟨rfl, hsub f hf⟩)
    (fun f hf => hok f (hsub f hf)) ?_
  rw [hs.control.trans hl.control]
  intro f hf e he
  rcases List.mem_cons.mp hf with rfl | hf
  · cases he
  rcases List.mem_cons.mp hf with rfl | hf
  · cases he
  exact hr f hf e he

/-- A plain effect raises no close event. -/
theorem plain_event {f : Effect} (hf : f.Plain) {e : Event} (he : f.event? = some e) (id : String) :
    ¬ e.Closes id := by
  cases f with
  | onPeerClose => exact hf.elim
  | onPeerConnect => cases he; exact fun h => h
  | onPeerMessage => cases he; exact fun h => h
  | onPeerWritable => cases he; exact fun h => h
  | _ => cases he

/-- The release of a connection is performed with the session in place. -/
theorem releasePeer_session (hw : Sound env w) {x : ℕ}
    (hx : (w.controls c).peers.find? p = some x) (code : CloseCode) :
    Sound env (w.releasePeer env c p x code) ∧ SameSession w (w.releasePeer env c p x code) ∧
      ((w.releasePeer env c p x code).insts x).control = c := by
  have hs := hw.removePeer hx code
  have hraises : ∀ f ∈ ((w.insts x).closingPeer.callbacks (env.onRelease x)).2, ∀ e,
      f.event? = some e → (∀ id, e ≠ .open id) ∧ ∀ id, ¬ e.Closes id := by
    intro f hf e he
    refine ⟨fun id hid => ?_, plain_event (PeerControl.callbacks_plain _ _ f hf) he⟩
    rw [hid] at he
    cases f <;> cases he
  have h := releasePeer_calls (fun _ e => (∀ id, e ≠ .open id) ∧ ∀ id, ¬ e.Closes id) hw hx code
    hraises
  refine ⟨h.sound hs, ?_, ?_⟩
  · have hr : SameSession w (w.removePeer env c p x code) := ⟨fun _ => id, rfl⟩
    exact hr.trans (h.sameSession hs.channelsSet (fun _ _ h => h.1) fun _ _ h hc => absurd hc (h.2 _))
  · rw [h.same.insts, (removePeer_effects env (hw.entries c p x hx).live c p code).1.control]
    exact (hw.entries c p x hx).control

theorem sendCommand_fault (source : Option ℕ) (channel command : String) (data : Json) (w : World) :
    (w.sendCommand source channel command data).fault = w.fault := by
  unfold sendCommand
  cases w.signal <;> rfl

theorem leaveChannel_fault (name : String) (w : World) : (w.leaveChannel name).fault = w.fault :=
  sendCommand_fault _ _ _ _ w

theorem leaveChannel_control (name : String) (w : World) :
    (w.leaveChannel name).control = w.control := by
  unfold leaveChannel sendCommand
  cases w.signal <;> rfl

theorem perform_running {x : ℕ} {f : Effect} (hf : (w.perform env x f).fault = none) :
    w.fault = none := by
  by_contra hn
  rw [perform, if_pos (Option.isSome_iff_ne_none.mpr hn)] at hf
  exact hn hf

/-- A close that returns reports itself to the observer after the release. -/
theorem closePeer_observes (hw : Sound env w) {x : ℕ}
    (hx : (w.controls c).peers.find? p = some x) (code : CloseCode) (hc : w.control = some c)
    (hf : (w.closePeer env c code p).fault = none) :
    (w.releasePeer env c p x code).fault = none ∧
      w.closePeer env c code p = ((w.releasePeer env c p x code).observe env c (some x)
        (.close p code "")).leaveChannel p := by
  obtain ⟨hs, hsession, hown⟩ := releasePeer_session hw hx code
  have hset := (hs.installed c (hsession.control c hc)).1
  rw [closePeer_eq hw hx] at hf ⊢
  rw [leaveChannel_fault] at hf
  have running := perform_running hf
  generalize w.releasePeer env c p x code = w' at hf hown hset running ⊢
  refine ⟨running, ?_⟩
  simp only [perform, running, hown, Option.isSome_none, Bool.false_eq_true, if_false] at hf ⊢
  by_cases hd : (w'.controls c).destroyed = true
  · rw [if_pos hd] at hf
    cases hf
  · simp only [if_neg hd, onPeerClose, observeIfSet, hset, if_true]

/-- Closing a connection to the local id ends the session. -/
theorem closePeer_drops (hw : Sound env w) {x : ℕ}
    (hx : (w.controls c).peers.find? env.peerId = some x) (code : CloseCode)
    (hc : w.control = some c) (once : w.closeOnce = false)
    (hf : (w.closePeer env c code env.peerId).fault = none) :
    (w.closePeer env c code env.peerId).control = none := by
  obtain ⟨hs, hsession, -⟩ := releasePeer_session hw hx code
  obtain ⟨running, he⟩ := closePeer_observes hw hx code hc hf
  have hc' := hsession.control c hc
  rw [he, leaveChannel_fault] at hf
  rw [he, leaveChannel_control]
  exact observe_drops hs.channelsSet running (hs.installed c hc').1 hc'
    (hsession.closeOnce.trans once) _ rfl hf

theorem reject_drops (hw : Sound env w) (hthread : (w.controls c).thread = true)
    (failed : (env.initOutcome w.nextInst).ok = false) (running : w.fault = none)
    (hc : w.control = some c) (once : w.closeOnce = false)
    (hf : (w.reject env c (newPeer env c env.peerId w).1).fault = none) :
    (w.reject env c (newPeer env c env.peerId w).1).control = none := by
  have hset := (hw.installed c hc).1
  have hs := hw.reject env.peerId hthread failed
  rw [reject_eq hset failed] at hf ⊢
  exact observe_drops hs.channelsSet running hset hc once _ rfl hf

theorem onMessage_drops (hw : Sound env w) {m : Message}
    (hc : w.control = some m.handler) (hm : Concerns env p m) (running : w.fault = none)
    (hlocal : env.peerId ∈ closedIds env w m) (once : w.closeOnce = false)
    (hf : (w.onMessage env m).fault = none) : (w.onMessage env m).control = none := by
  have hthread := (hw.installed _ hc).2.2
  unfold Concerns at hm
  unfold closedIds at hlocal
  unfold onMessage at hf ⊢
  have close (code : CloseCode) (peerId : String)
      (hlocal : env.peerId ∈ if ((w.controls m.handler).peers.find? peerId).isSome then [peerId]
        else []) (hf : (w.closePeer env m.handler code peerId).fault = none) :
      (w.closePeer env m.handler code peerId).control = none := by
    split_ifs at hlocal with hsome
    · obtain rfl := List.mem_singleton.mp hlocal
      obtain ⟨x, hx⟩ := Option.isSome_iff_exists.mp hsome
      exact closePeer_drops hw hx code hc once hf
    · cases hlocal
  cases hid : m.messageId with
  | commandReceived =>
    cases hparse : parseCommand env m.data.dataJson with
    | none => simp [hid, hparse] at hm
    | some parsed =>
      obtain ⟨command, peerId, data⟩ := parsed
      simp only [hid, hparse] at hm hlocal hf ⊢
      obtain ⟨rfl, hcommand⟩ := hm
      revert hf
      refine onCommandReceived_peer_cases (motive := fun w' => w'.fault = none → w'.control = none)
        hparse hcommand _ _ ?_ ?_ ?_ ?_
      · rintro rfl hf
        simp only [commandCloses, planned, String.reduceEq, if_true, if_false] at hlocal
        unfold receiveOfferSdp at hf ⊢
        cases hsdp : env.rtc.getStringFromJsonObject data "sdp" with
        | none => simp [hsdp] at hlocal
        | some sdp =>
          simp only [hsdp] at hlocal hf ⊢
          by_cases ok : (env.initOutcome w.nextInst).ok = true
          · simp [if_pos ok] at hlocal
          · have failed : (env.initOutcome w.nextInst).ok = false := by simpa using ok
            obtain rfl : env.peerId = peerId := by simpa [if_neg ok] using hlocal
            rw [if_neg (by rw [newPeer_failed failed]; simp)] at hf ⊢
            exact reject_drops hw hthread failed running hc once hf
      · rintro rfl
        simp [commandCloses, planned] at hlocal
      · rintro rfl
        simp [commandCloses, planned] at hlocal
      · rintro rfl hf
        simp only [commandCloses, String.reduceEq, if_true, if_false] at hlocal
        exact close _ _ hlocal hf
  | closePeer =>
    simp only [hid] at hlocal hf ⊢
    exact close _ _ hlocal hf
  | close => simp [hid] at hm
  | onPeerClose => simp [hid] at hm
  | onSignalConnectionClose => simp [hid] at hm

theorem keepsSession_of_isolated (hw : Reached env w) (hf : w.fault = none)
    (hc : w.control = some c) {a : Action} (ha : ConcernsPeer env w c p a)
    (hreturns : (w.step env a).fault = none) (hi : Isolated env w c p a) : KeepsSession env w a := by
  cases a with
  | process =>
    obtain ⟨m, hm, rfl, hp⟩ := ha
    intro m' hm' hlocal
    obtain rfl : m' = m := Option.some.inj (hm'.symm.trans hm)
    by_contra honce
    cases hqueue : w.queue with
    | nil => simp [hqueue] at hm
    | cons m queue =>
      obtain rfl : m = m' := by simpa [hqueue] using hm
      have hs : Sound env { w with queue := queue } :=
        (Tick.dequeued w m queue hqueue : Tick env .free w _).sound hw.toSound
      have hact : w.act env .process = World.onMessage env { w with queue := queue } m := by
        simp only [act, process, hqueue]
      have hcontrol := hi.control
      rw [step_running hf, hact] at hreturns hcontrol
      have hnone : (World.onMessage env { w with queue := queue } m).control = none :=
        onMessage_drops hs hc hp hf hlocal (by simpa using honce) hreturns
      cases hnone.symm.trans (hcontrol.trans hc)
  | callback x cb => trivial
  | api a => exact ha.elim
  | command message origin => exact ha.elim
  | net a => exact ha.elim

/-! ### Runs -/

/-- In every reachable state with an installed control, what is said about one peer
leaves the others and the session alone, unless it is the close of a connection to the
local id; and that one does end the session. -/
theorem peers_isolated_iff (env : Env) (hq : env.Quiet) (as : List Action) (a : Action) (c : ℕ)
    (p : String) (hf : (run (World.step env) init as).fault = none)
    (hc : (run (World.step env) init as).control = some c)
    (ha : ConcernsPeer env (run (World.step env) init as) c p a) :
    (KeepsSession env (run (World.step env) init as) a →
      Isolated env (run (World.step env) init as) c p a) ∧
    ((World.step env (run (World.step env) init as) a).fault = none →
      Isolated env (run (World.step env) init as) c p a →
      KeepsSession env (run (World.step env) init as) a) :=
  ⟨isolated_of_keepsSession hq (reached_run env as) hf hc ha,
    keepsSession_of_isolated (reached_run env as) hf hc ha⟩

/-- Two connections are being made, one of them to `id`, when the server reports `id`
as closed. -/
def closedByServer (id : String) : List Action :=
  [.api .open, .net (.connectInternal true), .net (.onOpen 0),
    .command (createOfferMessage ["b", id]) none, .process,
    .command (serverMessage "peerclosed" id (.obj [])) none]

theorem peers_isolated_closedByServer :
    Isolated (.idle "a" (by decide))
      (run (World.step (.idle "a" (by decide))) init (closedByServer "c")) 0 "c" .process :=
  (peers_isolated_iff (.idle "a" (by decide)) (fun _ _ h => by cases h) (closedByServer "c")
    .process 0 "c" (by decide +kernel) (by decide +kernel) (by decide +kernel)).1 (by decide +kernel)

/-- The server names the local id as a remote peer and reports it as closed. -/
theorem closedByServer_not_isolated : ¬ Isolated (.idle "a" (by decide))
    (run (World.step (.idle "a" (by decide))) init (closedByServer "a")) 0 "a" .process := by
  intro h
  have hcontrol := h.control
  revert hcontrol
  decide +kernel

end World

end PeerApi
