import PeerApi.Session.CloseAll

/-! Connections that cannot go on. When WebRTC reports so, the `PeerControl` posts a
request to close itself, and the request is processed after the messages before it.
Until then the entry stays, unless something else closes it, and either way the
observer is told.

Two reports are not passed on: a description that could not be made, and a failed ICE
connection. After those the entry stays for ever. -/

namespace PeerApi

/-- WebRTC reports that the connection of `p` cannot go on: the requested description
could not be made, the ICE connection failed, was lost or closed, or a data channel is
closed (a replaced one closes while it is still attached). -/
def Callback.Fatal (p : PeerControl) : Callback → Prop
  | .onFailure => p.pending.isSome = true
  | .onIceConnectionChange state => state = .failed ∨ state = .disconnected ∨ state = .closed
  | .onStateChange side state => state = .closed ∧ (p.channel side).isSome = true
  | .onDataChannel _ _ oldCloses =>
    oldCloses = true ∧ ∃ old, p.remoteDataChannel = some old ∧ old.live ≠ .closed
  | _ => False

/-- The reports that `PeerControl` does nothing about. -/
def Callback.Ignored : Callback → Prop
  | .onFailure => True
  | .onIceConnectionChange state => state = .failed
  | _ => False

namespace PeerControl

theorem Live.onPeerDisconnected_eq {p : PeerControl} (h : p.Live) :
    p.onPeerDisconnected = [.closePeer p.remoteId .goingAway] := by
  unfold onPeerDisconnected
  rcases h.state with hs | hs <;> simp [hs]

theorem rank_le_closed (state : DataState) : state.rank ≤ DataState.closed.rank := by
  cases state <;> decide

/-- Every other fatal report makes the object request its close. -/
theorem Live.callback_fatal {p : PeerControl} (h : p.Live) {cb : Callback} (hf : cb.Fatal p)
    (hi : ¬ cb.Ignored) : (p.callback cb).2 = [.closePeer p.remoteId .goingAway] := by
  cases cb with
  | onFailure => exact absurd trivial hi
  | onIceConnectionChange state =>
    rcases hf with hs | hs | hs
    · exact absurd hs hi
    · subst hs
      exact h.onPeerDisconnected_eq
    · subst hs
      exact h.onPeerDisconnected_eq
  | onStateChange side state =>
    obtain ⟨rfl, hsome⟩ := hf
    obtain ⟨ch, hch⟩ := Option.isSome_iff_exists.mp hsome
    simp only [callback, onStateChange, hch, if_pos (rank_le_closed _), onPeerDisconnected,
      setChannel_state, setChannel_remoteId]
    rcases h.state with hs | hs <;> simp [hs]
  | onDataChannel live bufferedAmount oldCloses =>
    obtain ⟨rfl, old, hold, hlive⟩ := hf
    simp only [callback, onDataChannel, hold]
    rw [if_pos (by simpa using hlive)]
    exact h.onPeerDisconnected_eq
  | onSuccess => exact hf.elim
  | onIceCandidate => exact hf.elim
  | channelState => exact hf.elim
  | onMessage => exact hf.elim
  | bufferedAmount => exact hf.elim
  | onBufferedAmountChange => exact hf.elim

end PeerControl

namespace World

open Base Relation

variable {env : Env} {w w' : World} {c : ℕ} {k : String} {x : ℕ}

/-! ### What a message does -/

/-- A change that takes nothing out of `peers_` and lets no instance act. -/
inductive Plain (env : Env) : World → World → Prop where
  | call {w w' : World} (h : Call env (fun _ _ => True) nobody w w') : Plain env w w'
  | changed (w : World) (x : ℕ) (p : PeerControl) : Plain env w (w.setInst x p)
  | made (w : World) (p : PeerControl) : Plain env w (w.newInst p)
  | registered (w : World) (c : ℕ) (p : PeerControl) : Plain env w (w.register c p)

abbrev Plains (env : Env) : World → World → Prop := ReflTransGen (Plain env)

theorem Calls.plains (h : Calls env (fun _ _ => True) nobody w w') : Plains env w w' :=
  h.lift id fun _ _ hc => Plain.call hc

theorem observe_plains (hl : ChannelsSet w) (c : ℕ) {e : Event}
    (he : (∃ id, e = .open id) ∨ ∃ id code desc, e = .close id code desc) :
    Plains env w (w.observe env c none e) := by
  have ok : EventOk nobody w c none e := he
  exact Calls.plains (observe_calls hl ok trivial)

theorem observeIfSet_plains (hl : ChannelsSet w) (c : ℕ) (id : String) (code : CloseCode)
    (desc : String) : Plains env w (w.observeIfSet env c none (.close id code desc)) := by
  unfold observeIfSet
  split_ifs
  · exact observe_plains hl c (Or.inr ⟨_, _, _, rfl⟩)
  · exact .refl

theorem reject_plains (hw : Sound env w) (hc : (w.controls c).thread = true) (remoteId : String)
    (failed : (env.initOutcome w.nextInst).ok = false) :
    Plains env w (w.reject env c (newPeer env c remoteId w).1) :=
  .head (.made w _) (observeIfSet_plains (hw.reject remoteId hc failed).channelsSet c _ _ "")

theorem createOffers_plains (hw : Sound env w) (hc : (w.controls c).thread = true)
    (items : List (Option Json)) : Plains env w (createOffers env c items w) := by
  induction items generalizing w with
  | nil => exact .refl
  | cons item items ih =>
    simp only [createOffers]
    cases item.bind env.rtc.getStringFromJson with
    | none => exact .refl
    | some remoteId =>
      dsimp only
      by_cases ok : (env.initOutcome w.nextInst).ok = true
      · have ht : Tick env .free w (w.register c (newPeer env c remoteId w).1.createOffer) :=
          .registered w c _ [] hc (.offer remoteId ok trivial) trivial
        rw [if_pos (by rw [newPeer_ok ok])]
        exact .head (.registered w c _) (ih (ht.sound hw) (ht.grows.threads c hc))
      · have failed : (env.initOutcome w.nextInst).ok = false := by simpa using ok
        rw [if_neg (by rw [newPeer_failed failed]; simp)]
        exact reject_plains hw hc remoteId failed

theorem receiveOfferSdp_plains (hw : Sound env w) (hc : (w.controls c).thread = true)
    (peerId : String) (data : Json) (origin : Option ℕ) :
    Plains env w (w.receiveOfferSdp env c peerId data origin) := by
  unfold receiveOfferSdp
  cases env.rtc.getStringFromJsonObject data "sdp" with
  | none => exact .refl
  | some sdp =>
    dsimp only
    by_cases ok : (env.initOutcome w.nextInst).ok = true
    · rw [if_pos (by rw [newPeer_ok ok])]
      exact .single (.registered w c _)
    · have failed : (env.initOutcome w.nextInst).ok = false := by simpa using ok
      rw [if_neg (by rw [newPeer_failed failed]; simp)]
      exact reject_plains hw hc peerId failed

theorem receiveAnswerSdp_plains (hw : Sound env w) (c : ℕ) (peerId : String) (data : Json)
    (origin : Option ℕ) : Plains env w (w.receiveAnswerSdp env c peerId data origin) := by
  unfold receiveAnswerSdp
  cases env.rtc.getStringFromJsonObject data "sdp" with
  | none => exact .refl
  | some sdp =>
    dsimp only
    cases hx : (w.controls c).peers.find? peerId with
    | none => exact .refl
    | some x =>
      simp only [runPeer, (hw.entries c peerId x hx).live.receiveAnswerSdp_eq, List.foldl_cons,
        List.foldl_nil, perform, ite_self]
      exact .single (.changed w x _)

theorem addIceCandidate_plains (hw : Sound env w) (c : ℕ) (peerId : String) (data : Json) :
    Plains env w (w.addIceCandidate env c peerId data) := by
  unfold addIceCandidate
  split
  · cases hx : (w.controls c).peers.find? peerId with
    | none => exact .refl
    | some x =>
      simp only [runPeer, (hw.entries c peerId x hx).live.addIceCandidate_eq, List.foldl_nil]
      exact .single (.changed w x _)
  · exact .refl

theorem onOpen_plains (hc : (w.controls c).thread = true) (data : Json) :
    Plains env w (w.onOpen env c data) := by
  unfold onOpen
  split
  · split
    · exact .refl
    next sessionId _ =>
      have h : Moves env nobody w _ := .single (.session w c sessionId hc)
      exact Calls.plains (Moves.calls (h.trans (createChannel_moves _ _)))
  · exact .refl

theorem onChannelCreate_plains (hl : ChannelsSet w) (c : ℕ) (data : Json) :
    Plains env w (w.onChannelCreate env c data) := by
  rcases onChannelCreate_cases w c data with ⟨id, desc, -, he⟩ | ⟨id, -, he⟩
  · rw [he]
    exact observe_plains hl c (Or.inr ⟨_, _, _, rfl⟩)
  · rw [he]
    exact observe_plains hl c (Or.inl ⟨_, rfl⟩)

theorem onChannelJoin_plains (hl : ChannelsSet w) (c : ℕ) (data : Json) :
    Plains env w (w.onChannelJoin env c data) := by
  rcases onChannelJoin_cases w c data with ⟨id, desc, -, he⟩ | ⟨-, he⟩
  · rw [he]
    exact observe_plains hl c (Or.inr ⟨_, _, _, rfl⟩)
  · rw [he]

/-- The message makes its control close everything. -/
def IsClose (m : Message) : Prop :=
  m.messageId = .close ∨ m.messageId = .onSignalConnectionClose

instance (m : Message) : Decidable (IsClose m) :=
  inferInstanceAs (Decidable (m.messageId = .close ∨ m.messageId = .onSignalConnectionClose))

/-- A message closes one connection or all of them, or it closes none. -/
theorem onMessage_cases {motive : World → Prop} (hw : Sound env w) {m : Message}
    (hc : (w.controls m.handler).thread = true)
    (one : ∀ code k, removedIds env w m = [k] → motive (w.closePeer env m.handler code k))
    (all : ∀ code, IsClose m →
      removedIds env w m = (w.controls m.handler).peers.entries.map Prod.fst →
      motive (w.close env m.handler code))
    (none : ∀ w', removedIds env w m = [] → Plains env w w' → motive w') :
    motive (w.onMessage env m) := by
  unfold onMessage
  cases hm : m.messageId with
  | commandReceived =>
    dsimp only
    cases hp : parseCommand env m.data.dataJson with
    | none =>
      rw [onCommandReceived_none hp]
      exact none w (by simp [removedIds, hm, hp]) .refl
    | some parsed =>
      obtain ⟨command, peerId, data⟩ := parsed
      by_cases hclosed : command = "peerclosed"
      · subst hclosed
        rw [onCommandReceived_some hp]
        simp only [String.reduceEq, if_true, if_false]
        exact one .normal peerId (by simp [removedIds, hm, hp])
      have plain {w' : World} (h : Plains env w w') : motive w' :=
        none w' (by simp [removedIds, hm, hp, hclosed]) h
      apply onCommandReceived_cases (motive := motive) hp
      · exact fun _ => plain (onOpen_plains hc data)
      · exact fun _ => plain (onChannelCreate_plains hw.channelsSet _ data)
      · exact fun _ => plain (onChannelJoin_plains hw.channelsSet _ data)
      · exact fun h => absurd h hclosed
      · intro _
        unfold createOffer
        cases env.rtc.getValueFromJsonObject data "peers" with
        | none => exact plain .refl
        | some peers => exact plain (createOffers_plains hw hc _)
      · exact fun _ => plain (receiveOfferSdp_plains hw hc peerId data m.origin)
      · exact fun _ => plain (receiveAnswerSdp_plains hw _ peerId data m.origin)
      · exact fun _ => plain (addIceCandidate_plains hw _ peerId data)
      · exact plain .refl
  | close => exact all _ (Or.inl hm) (by simp only [removedIds, hm])
  | closePeer => exact one _ _ (by simp only [removedIds, hm])
  | onPeerClose =>
    exact none _ (by simp only [removedIds, hm]) (observeIfSet_plains hw.channelsSet _ _ _ "")
  | onSignalConnectionClose => exact all _ (Or.inr hm) (by simp only [removedIds, hm])

/-! ### What a message leaves in place -/

/-- Messages are only added to the queue, and entries outside `R` stay. -/
structure Retains (R : ℕ → String → Prop) (w w' : World) : Prop where
  queue : Appends World.queue (fun _ => True) w w'
  entries : ∀ d k x, ¬ R d k → (w.controls d).peers.find? k = some x →
    (w'.controls d).peers.find? k = some x

variable {R : ℕ → String → Prop}

theorem Retains.refl (R : ℕ → String → Prop) (w : World) : Retains R w w :=
  ⟨.of_eq rfl, fun _ _ _ _ hx => hx⟩

theorem Retains.trans {w'' : World} (h : Retains R w w') (h' : Retains R w' w'') :
    Retains R w w'' :=
  ⟨h.queue.trans h'.queue, fun d k x hR hx => h'.entries d k x hR (h.entries d k x hR hx)⟩

theorem Move.queue {src : ℕ → Effect → Prop} (h : Move env src w w') :
    Appends World.queue (fun _ => True) w w' := by
  cases h with
  | post m thread ref ok => exact ⟨[m], rfl, fun _ _ => trivial⟩
  | _ => exact .of_eq rfl

theorem Call.queue {raises : ℕ → Event → Prop} {src : ℕ → Effect → Prop}
    (h : Call env raises src w w') : Appends World.queue (fun _ => True) w w' := by
  cases h with
  | move h => exact h.queue
  | event c source e running set ok admits moves =>
    refine Appends.of_steps (fun {w w'} h => ?_) moves
    cases h with
    | move h => exact h.queue
    | _ => exact .of_eq rfl

theorem Calls.retains {raises : ℕ → Event → Prop} {src : ℕ → Effect → Prop}
    (h : Calls env raises src w w') (R : ℕ → String → Prop) : Retains R w w' := by
  refine ⟨Appends.of_steps Call.queue h, fun d k x _ hx => ?_⟩
  rw [h.same.peers]
  exact hx

theorem setInst_retains (R : ℕ → String → Prop) (x : ℕ) (p : PeerControl) (w : World) :
    Retains R w (w.setInst x p) := ⟨.of_eq rfl, fun _ _ _ _ hx => hx⟩

theorem register_retains (R : ℕ → String → Prop) (c : ℕ) (p : PeerControl) (w : World) :
    Retains R w (w.register c p) := by
  refine ⟨.of_eq rfl, fun d k x _ hx => ?_⟩
  rw [register_find?]
  split_ifs with hdk
  · rw [← hdk.1, hx]
    rfl
  · exact hx

theorem Plains.retains (h : Plains env w w') (R : ℕ → String → Prop) : Retains R w w' := by
  induction h with
  | refl => exact .refl R w
  | tail _ hp ih =>
    refine ih.trans ?_
    cases hp with
    | call h =>
      have hc : Calls env (fun _ _ => True) nobody _ _ := .single h
      exact hc.retains R
    | changed x p => exact setInst_retains R x p _
    | made p => exact ⟨.of_eq rfl, fun _ _ _ _ hx => hx⟩
    | registered c p => exact register_retains R c p _

theorem closePeer_retains (hw : Sound env w) (code : CloseCode) (hR : R c k) :
    Retains R w (w.closePeer env c code k) := by
  cases hx : (w.controls c).peers.find? k with
  | none =>
    simp only [closePeer, hx]
    exact .refl R w
  | some x =>
    have hr : Retains R w (w.removePeer env c k x code) := by
      refine ⟨.of_eq rfl, fun d k' y hn hy => ?_⟩
      rw [removePeer_find?, if_neg]
      · exact hy
      · rintro ⟨rfl, rfl⟩
        exact hn hR
    exact hr.trans ((closePeer_calls hw hx code).retains R)

theorem closePeers_retains (hw : Sound env w) (code : CloseCode) {ids : List String}
    (hR : ∀ k ∈ ids, R c k) : Retains R w (ids.foldl (closePeer env c code) w) := by
  induction ids generalizing w with
  | nil => exact .refl R w
  | cons k ids ih =>
    have ht : Ticks env .free w (w.closePeer env c code k) :=
      closePeer_ticks hw c code k fun _ _ _ => trivial
    exact (closePeer_retains hw code (hR k List.mem_cons_self)).trans
      (ih (ht.sound hw) fun k' hk' => hR k' (List.mem_cons_of_mem k hk'))

theorem close_retains (hw : Sound env w) (code : CloseCode)
    (hR : ∀ k ∈ (w.controls c).peers.entries.map Prod.fst, R c k) :
    Retains R w (w.close env c code) := by
  have ht : Ticks env .free w _ := closePeers_ticks hw c code
    ((w.controls c).peers.entries.map fun e => (w.insts e.2).remoteId) fun _ _ => trivial
  have hobs : Plains env _ (w.close env c code) :=
    observeIfSet_plains (ht.sound hw).channelsSet c _ code ""
  refine (closePeers_retains hw code ?_).trans (hobs.retains R)
  rw [hw.remoteIds c]
  exact hR

/-- A message takes no other entries out of `peers_` than it names. -/
theorem onMessage_retains (hw : Sound env w) {m : Message}
    (hc : (w.controls m.handler).thread = true) :
    Retains (fun d k => d = m.handler ∧ k ∈ removedIds env w m) w (w.onMessage env m) := by
  apply onMessage_cases (motive := Retains _ w) hw hc
  · exact fun code k hk => closePeer_retains hw code ⟨rfl, by simp [hk]⟩
  · exact fun code _ hk => close_retains hw code fun k hmem => ⟨rfl, hk ▸ hmem⟩
  · exact fun w' _ hp => hp.retains _

/-- Nothing but the dispatch of a message removes one or an entry. -/
theorem act_retains (hw : Reached env w) {a : Action} (ha : a ≠ .process)
    (R : ℕ → String → Prop) : Retains R w (w.act env a) := by
  cases a with
  | process => exact absurd rfl ha
  | api a =>
    have h : Calls env (fun _ _ => True) nobody w _ := (api_moves hw.channelsSet a).calls
    exact h.retains R
  | net a =>
    have h : Calls env (fun _ _ => True) nobody w _ := (net_moves w a).calls
    exact h.retains R
  | command message origin =>
    have hpost : ∀ (w : World) (d : ℕ), Retains R w (w.onSignalCommandReceived message origin d) := by
      intro w d
      unfold onSignalCommandReceived post
      split_ifs
      · exact ⟨⟨[_], rfl, fun _ _ => trivial⟩, fun _ _ _ _ hx => hx⟩
      · exact ⟨.of_eq rfl, fun _ _ _ _ hx => hx⟩
    exact List.foldlRecOn w.subscribed _ (.refl R w) fun w₁ h d _ => h.trans (hpost w₁ d)
  | callback x cb =>
    by_cases hx : x < w.nextInst ∧ (w.insts x).released = false
    · exact (setInst_retains R x _ w).trans ((callback_calls hw hx cb).retains R)
    · simp only [act, if_neg hx]
      exact .refl R w

/-! ### Gone entries -/

/-- No registry holds instance `x`, and its control has reported its close. -/
structure Gone (c : ℕ) (k : String) (x : ℕ) (w : World) : Prop where
  unregistered : ∀ d k', (w.controls d).peers.find? k' ≠ some x
  reported : ∃ code, .observer c (some x) (.close k code "") ∈ w.obs

/-- An old instance is registered nowhere anew. -/
theorem Ticks.find?_old {G : Guard} (h : Ticks env G w w') (hx : x < w.nextInst) {d : ℕ}
    (hd : (w'.controls d).peers.find? k = some x) : (w.controls d).peers.find? k = some x := by
  induction h with
  | refl => exact hd
  | @tail w₁ w₂ hpre ht ih =>
    have hx₁ : x < w₁.nextInst := hx.trans_le (Ticks.grows hpre).insts
    apply ih
    cases ht with
    | call h => rwa [h.same.peers] at hd
    | callback y cb hy alive started report h => rwa [h.same.peers] at hd
    | closed d' k' y code h calls =>
      rw [calls.same.peers, removePeer_find?] at hd
      split_ifs at hd
      exact hd
    | registered d' p ids thread new starts =>
      rw [register_find?] at hd
      split_ifs at hd with hdk
      · rw [hdk.1]
        cases hold : (w₁.controls d').peers.find? k with
        | none =>
          rw [hold] at hd
          exact absurd (Option.some.inj hd) (Nat.ne_of_gt hx₁)
        | some y =>
          rw [hold] at hd
          exact hd
      · exact hd
    | _ => exact hd

/-- Without the local close the installed control stays. -/
theorem Ticks.holds {G : Guard} (h : Ticks env G w w') (hcalm : Calm env G.raises w)
    (hc : w.control = some c) : w'.control = some c :=
  (calls_invariant (P := fun w => Calm env G.raises w ∧ w.control = some c)
    (fun h hw => ⟨hw.1.grows h.grows, h.holds hw.1 hw.2⟩) h ⟨hcalm, hc⟩).2

/-- What is gone stays gone. -/
theorem Gone.step (hg : Gone c k x w) (hw : Reached env w) (hx : x < w.nextInst) (a : Action) :
    Gone c k x (w.step env a) := by
  rcases step_ticks hw (admitted_free env w a) with hs | ⟨-, ht, hs⟩
  · rwa [hs]
  · obtain ⟨code, hcode⟩ := hg.reported
    rw [hs]
    refine ⟨fun d k' hd => ?_, code, ht.raised.mem hcode⟩
    exact hg.unregistered d k' (ht.find?_old hx (releaseControls_find? (w := w.act env a) hd))

/-- An entry that is missing in the end is gone, if it was reported. -/
theorem gone_of_removed {G : Guard} (h : Ticks env G w w') (hw : Sound env w)
    (hx : (w.controls c).peers.find? k = some x) (hnone : (w'.controls c).peers.find? k = none)
    {code : CloseCode} (hcode : .observer c (some x) (.close k code "") ∈ w'.obs) :
    Gone c k x w' := by
  refine ⟨fun d k' hd => ?_, code, hcode⟩
  have hold := h.find?_old (hw.bound c k x hx) hd
  have he := hw.entries c k x hx
  have he' := hw.entries d k' x hold
  obtain rfl : d = c := he'.control.symm.trans he.control
  obtain rfl : k' = k := he'.remoteId.symm.trans he.remoteId
  rw [hnone] at hd
  cases hd

theorem closePeer_gone (hw : Sound env w) (hx : (w.controls c).peers.find? k = some x)
    (code : CloseCode) (hc : w.control = some c) (hf : (w.closePeer env c code k).fault = none) :
    Gone c k x (w.closePeer env c code k) :=
  gone_of_removed (closePeer_ticks hw c code k fun _ _ _ => trivial : Ticks env .free w _) hw hx
    (closePeer_removes hw c code k) (closePeer_reports hw hx code hc hf)

theorem close_gone (hw : Sound env w) (hx : (w.controls c).peers.find? k = some x)
    (code : CloseCode) (hc : w.control = some c)
    (hlocal : (w.controls c).peers.find? env.peerId = none)
    (hf : (w.close env c code).fault = none) : Gone c k x (w.close env c code) := by
  obtain ⟨w₁, ht, hf₁, hc₁, he, -, hclosed⟩ := close_loop hw code hc hlocal hf
  have hset := ((ht.sound hw).installed c hc₁).1
  have hobs := observe_obs env none (.close env.peerId code "") hf₁ hset
  have hticks : Ticks env .free w (w.close env c code) :=
    close_ticks hw (hw.installed c hc).2.2 code fun _ _ => trivial
  have hreported : .observer c (some x) (.close k code "") ∈ (w.close env c code).obs := by
    rw [he]
    exact hobs.subset (List.mem_append_left _ (hclosed k x hx).2)
  exact gone_of_removed hticks hw hx (close_removes hw c code k) hreported

/-! ### One message -/

/-- The session ends only by a close of all connections, none of which is to the local
id. -/
def Tidy (env : Env) (w : World) : Action → Prop
  | .process => ∀ m ∈ w.queue.head?, (w.controls m.handler).observer = true →
      env.peerId ∈ closedIds env w m →
        IsClose m ∧ (w.controls m.handler).peers.find? env.peerId = none
  | _ => True

instance (env : Env) (w : World) : (a : Action) → Decidable (Tidy env w a)
  | .process => inferInstanceAs (Decidable (∀ m ∈ w.queue.head?,
      (w.controls m.handler).observer = true → env.peerId ∈ closedIds env w m →
        IsClose m ∧ (w.controls m.handler).peers.find? env.peerId = none))
  | .api _ => inferInstanceAs (Decidable True)
  | .command _ _ => inferInstanceAs (Decidable True)
  | .net _ => inferInstanceAs (Decidable True)
  | .callback _ _ => inferInstanceAs (Decidable True)

/-- The entry is in place and its control installed. -/
structure InPlace (c : ℕ) (k : String) (x : ℕ) (w : World) : Prop where
  control : w.control = some c
  entry : (w.controls c).peers.find? k = some x

/-- A message that names the entry removes it and reports it. -/
theorem InPlace.removed (h : InPlace c k x w) (hw : Sound env w) {m : Message}
    (hm : m.handler = c) (hk : k ∈ removedIds env w m)
    (hlocal : IsClose m → (w.controls c).peers.find? env.peerId = none)
    (hf : (w.onMessage env m).fault = none) : Gone c k x (w.onMessage env m) := by
  subst hm
  have hthread := (hw.installed _ h.control).2.2
  revert hf
  apply onMessage_cases (motive := fun v => v.fault = none → Gone m.handler k x v) hw hthread
  · intro code k' hk' hf
    rw [hk', List.mem_singleton] at hk
    subst hk
    exact closePeer_gone hw h.entry code h.control hf
  · exact fun code hclose _ hf => close_gone hw h.entry code h.control (hlocal hclose) hf
  · intro v hnone
    rw [hnone] at hk
    cases hk

/-- A message leaves the entry in place, or removes and reports it. -/
theorem InPlace.message (h : InPlace c k x w) (hw : Sound env w) {m : Message}
    (hthread : (w.controls m.handler).thread = true)
    (htidy : (w.controls m.handler).observer = true → env.peerId ∈ closedIds env w m →
      IsClose m ∧ (w.controls m.handler).peers.find? env.peerId = none)
    (hf : (w.onMessage env m).fault = none) :
    InPlace c k x (w.onMessage env m) ∨ Gone c k x (w.onMessage env m) := by
  have hset := (hw.installed c h.control).1
  by_cases hk : m.handler = c ∧ k ∈ removedIds env w m
  · refine Or.inr (h.removed hw hk.1 hk.2 (fun hclose => ?_) hf)
    have hclosed : env.peerId ∈ closedIds env w m := by
      rw [← hw.named _ hthread]
      rcases hclose with hid | hid <;> simp [closedIds, hid]
    rw [← hk.1]
    exact (htidy (by rw [hk.1]; exact hset) hclosed).2
  · refine Or.inl ⟨?_, ?_⟩
    · have hadm : Admits env (messageGuard m.handler (closedIds env w m) (startedIds env w m)) w m :=
        ⟨⟨rfl, List.Subset.refl _⟩, fun e he => ⟨rfl, he⟩, fun _ _ _ _ _ _ => trivial,
          fun _ _ _ _ _ => trivial⟩
      refine (onMessage_ticks hw hthread hadm).holds ?_ h.control
      rintro d e ⟨rfl, he⟩ hlocal
      refine ⟨hw.thread_lt hthread, ?_⟩
      by_contra hobs
      have hobs' : (w.controls m.handler).observer = true := by simpa using hobs
      have hhandler : m.handler = c :=
        Option.some.inj ((hw.observed _ hobs' hthread).symm.trans h.control)
      -- a close of everything would have named the entry
      refine hk ⟨hhandler, ?_⟩
      have hmem : k ∈ (w.controls m.handler).peers.entries.map Prod.fst := by
        rw [hhandler]
        exact List.mem_map.mpr ⟨(k, x), OrderedMap.mem_entries.mpr h.entry, rfl⟩
      rcases (htidy hobs' (he _ hlocal)).1 with hid | hid
      · simpa only [removedIds, hid] using hmem
      · simpa only [removedIds, hid] using hmem
    · refine (onMessage_retains hw hthread).entries c k x ?_ h.entry
      rintro ⟨rfl, hmem⟩
      exact hk ⟨rfl, hmem⟩

/-! ### Waiting for the request -/

theorem InPlace.releases (h : InPlace c k x w) : InPlace c k x w.releaseControls.releaseInsts := by
  refine ⟨h.control, ?_⟩
  have hstays : w.releaseControls.controls c = w.controls c :=
    releaseControls_stays (not_dying h.control)
  rw [← h.entry, ← hstays]
  rfl

theorem Gone.releases (h : Gone c k x w) : Gone c k x w.releaseControls.releaseInsts :=
  ⟨fun d k' hd => h.unregistered d k' (releaseControls_find? (w := w) hd), h.reported⟩

/-- The messages of a control that something holds survive the release of others. -/
theorem releaseControls_request {pre post : List Message} {m : Message}
    (hheld : w.controlHeld m.handler = true) (hq : w.queue = pre ++ m :: post) :
    ∃ pre' post', w.releaseControls.queue = pre' ++ m :: post' ∧ pre'.length ≤ pre.length := by
  simp only [releaseControls, hq, List.filter_append]
  rw [List.filter_cons_of_pos (by simp [hheld])]
  exact ⟨_, _, rfl, List.length_filter_le _ _⟩

/-- The entry is in place, and a request to close it is among the next `n` messages. -/
structure Waiting (c : ℕ) (k : String) (x n : ℕ) (w : World) : Prop extends InPlace c k x w where
  request : ∃ pre m post, w.queue = pre ++ m :: post ∧ pre.length < n ∧ m.RequestFor c k

theorem Waiting.releases {n : ℕ} (h : Waiting c k x n w) :
    Waiting c k x n w.releaseControls.releaseInsts := by
  obtain ⟨pre, m, post, hq, hn, hm⟩ := h.request
  have hheld : w.controlHeld m.handler = true := by simp [controlHeld, h.control, hm.2.1]
  obtain ⟨pre', post', hq', hle⟩ := releaseControls_request hheld hq
  exact ⟨h.toInPlace.releases, pre', m, post', hq', hle.trans_lt hn, hm⟩

/-- Everything but the dispatch of messages leaves the entry in place. -/
theorem InPlace.other (h : InPlace c k x w) (hw : Reached env w) {a : Action}
    (ha : a ≠ .process) : InPlace c k x (w.act env a) := by
  refine ⟨?_, (act_retains hw ha fun _ _ => False).entries c k x id h.entry⟩
  have admitted : ∃ d, Admitted env (messageGuard d [] []) w a := by
    cases a with
    | process => exact absurd rfl ha
    | callback y cb => exact ⟨(w.insts y).control, trivial, fun e he => ⟨rfl, he⟩⟩
    | api a => exact ⟨0, trivial⟩
    | command message origin => exact ⟨0, trivial⟩
    | net a => exact ⟨0, trivial⟩
  obtain ⟨d, hd⟩ := admitted
  refine (act_ticks hw hd).holds ?_ h.control
  rintro d' e ⟨-, he⟩ hlocal
  cases he _ hlocal

theorem Waiting.other {n : ℕ} (h : Waiting c k x n w) (hw : Reached env w) {a : Action}
    (ha : a ≠ .process) : Waiting c k x n (w.act env a) := by
  obtain ⟨pre, m, post, hq, hn, hm⟩ := h.request
  obtain ⟨new, hnew, -⟩ := (act_retains (R := fun _ _ => False) hw ha).queue
  refine ⟨h.toInPlace.other hw ha, pre, m, post ++ new, ?_, hn, hm⟩
  rw [hnew, hq]
  simp

/-- Each dispatch brings the request nearer, or removes the entry. -/
theorem Waiting.process {n : ℕ} (h : Waiting c k x (n + 1) w) (hw : Reached env w)
    (ht : Tidy env w .process) (hf : (w.act env .process).fault = none) :
    Waiting c k x n (w.act env .process) ∨ Gone c k x (w.act env .process) := by
  obtain ⟨pre, m, post, hq, hn, hm⟩ := h.request
  obtain ⟨m', queue, hq'⟩ : ∃ m' queue, w.queue = m' :: queue := by
    cases pre with
    | nil => exact ⟨m, post, hq⟩
    | cons m' pre => exact ⟨m', pre ++ m :: post, hq⟩
  have hd : Tick env .free w { w with queue := queue } := .dequeued w m' queue hq'
  have hs := hd.sound hw.toSound
  have hthread := hw.queued m' (by rw [hq']; exact List.mem_cons_self)
  have hact : w.act env .process = World.onMessage env { w with queue := queue } m' := by
    simp only [act, World.process, hq']
  have hplace : InPlace c k x { w with queue := queue } := ⟨h.control, h.entry⟩
  rw [hact] at hf ⊢
  cases pre with
  | nil =>
    obtain ⟨rfl, rfl⟩ : m' = m ∧ queue = post := by simpa [hq'] using hq
    refine Or.inr (hplace.removed hs hm.2.1 ?_ (fun hclose => ?_) hf)
    · simp [removedIds, hm.1, hm.2.2.1]
    · rcases hclose with hid | hid <;> simp [hm.1] at hid
  | cons m₁ pre =>
    obtain ⟨rfl, rfl⟩ : m' = m₁ ∧ queue = pre ++ m :: post := by simpa [hq'] using hq
    refine (hplace.message hs hthread (ht m' (by rw [hq']; rfl)) hf).imp (fun hin => ?_) id
    obtain ⟨new, hnew, -⟩ := (onMessage_retains hs hthread).queue
    refine ⟨hin, pre, m, post ++ new, ?_, ?_, hm⟩
    · rw [hnew]
      simp
    · simpa using hn

/-! ### Runs -/

/-- The step dispatches a message. -/
def Action.isProcess : Action → Bool
  | .process => true
  | _ => false

theorem running_of_run (as : List Action) (hf : (run (World.step env) w as).fault = none) :
    w.fault = none := by
  by_contra hn
  rw [run_crashed hn] at hf
  exact hn hf

theorem Gone.run (h : Gone c k x w) (hw : Reached env w) (hx : x < w.nextInst) (bs : List Action) :
    Gone c k x (Base.run (World.step env) w bs) := by
  have hstep : ∀ w a, Reached env w ∧ x < w.nextInst ∧ Gone c k x w →
      Reached env (w.step env a) ∧ x < (w.step env a).nextInst ∧ Gone c k x (w.step env a) := by
    rintro w a ⟨hw, hx, h⟩
    refine ⟨hw.step a, ?_, h.step hw hx a⟩
    rcases step_ticks hw (admitted_free env w a) with hs | ⟨-, ht, hs⟩
    · rwa [hs]
    · rw [hs]
      exact hx.trans_le ht.grows.insts
  exact (run_invariant (P := fun w => Reached env w ∧ x < w.nextInst ∧ Gone c k x w) hstep
    ⟨hw, hx, h⟩ bs).2.2

/-- When the next `n` messages have been processed, the entry is gone. -/
theorem Waiting.run {n : ℕ} (h : Waiting c k x n w) (hw : Reached env w) {bs : List Action}
    (ht : Along (World.step env) (fun w a => InPlace c k x w → Tidy env w a) w bs)
    (hn : n ≤ bs.countP Action.isProcess) (hf : (Base.run (World.step env) w bs).fault = none) :
    Gone c k x (Base.run (World.step env) w bs) := by
  induction bs generalizing w n with
  | nil =>
    obtain ⟨pre, m, post, -, hlt, -⟩ := h.request
    simp at hn
    omega
  | cons a bs ih =>
    obtain ⟨hta, htb⟩ := ht
    rw [run_cons] at hf ⊢
    have running : w.fault = none := running_of_run (a :: bs) hf
    have hfs := running_of_run bs hf
    rw [step_running running] at hf hfs htb ⊢
    have hw' : Reached env (w.act env a).releaseControls.releaseInsts :=
      (act_sound hw a).releaseControls.releaseInsts
    by_cases ha : a = .process
    · subst ha
      obtain ⟨n, rfl⟩ : ∃ n', n = n' + 1 := by
        obtain ⟨pre, m, post, -, hlt, -⟩ := h.request
        exact ⟨n - 1, by omega⟩
      rw [List.countP_cons_of_pos rfl] at hn
      rcases h.process hw (hta h.toInPlace) hfs with hwait | hgone
      · exact ih hwait.releases hw' htb (by omega) hf
      · refine hgone.releases.run hw' ?_ bs
        have hx := hw.bound c k x h.entry
        exact hx.trans_le (act_ticks hw (admitted_free env w .process)).grows.insts
    · have hnot : ¬ a.isProcess = true := by
        cases a <;> simp [Action.isProcess] at ha ⊢
      rw [List.countP_cons_of_neg hnot] at hn
      exact ih (h.other hw ha).releases hw' htb hn hf

theorem perform_closePeer_queue (env : Env) (hf : w.fault = none)
    (hd : (w.controls (w.insts x).control).destroyed = false)
    (ht : (w.controls (w.insts x).control).thread = true) (k : String) (code : CloseCode) :
    ∃ m : Message, (w.perform env x (.closePeer k code)).queue = w.queue ++ [m] ∧
      m.RequestFor (w.insts x).control k := by
  refine ⟨⟨(w.insts x).control, .closePeer, ⟨.null, k, some code,
    (w.controls (w.insts x).control).ref⟩, some x⟩, ?_, rfl, rfl, rfl, rfl⟩
  simp [perform, closePeerQueued, post, hf, hd, ht]

/-- After a fatal report that is passed on, the request is in the queue. -/
theorem waiting_of_fatal (hw : Reached env w) (hstanding : Standing w) (h : InPlace c k x w)
    {cb : Callback} (hfatal : cb.Fatal (w.insts x)) (hi : ¬ cb.Ignored) (running : w.fault = none) :
    Waiting c k x (w.step env (.callback x cb)).queue.length (w.step env (.callback x cb)) := by
  have he := hw.entries c k x h.entry
  have hx : x < w.nextInst ∧ (w.insts x).released = false := ⟨hw.bound c k x h.entry, he.held⟩
  have hact : w.act env (.callback x cb) =
      (w.setInst x (logged ((w.insts x).callback cb))).perform env x (.closePeer k .goingAway) := by
    simp only [act, if_pos hx, runPeer, logged, he.live.callback_fatal hfatal hi, he.remoteId,
      List.foldl_cons, List.foldl_nil]
  have hcontrol : ((w.setInst x (logged ((w.insts x).callback cb))).insts x).control = c := by
    rw [setInst_insts_self]
    exact (PeerControl.callback_keeps (w.insts x) cb).control.trans he.control
  have hplace := h.other hw (a := .callback x cb) (by simp)
  obtain ⟨m, hqueue, hm⟩ := perform_closePeer_queue env
    (w := w.setInst x (logged ((w.insts x).callback cb))) (x := x) running
    (by rw [hcontrol]; exact hstanding c h.control)
    (by rw [hcontrol]; exact (hw.installed c h.control).2.2) k .goingAway
  rw [hcontrol] at hm
  rw [← hact] at hqueue
  have hheld : (w.act env (.callback x cb)).controlHeld m.handler = true := by
    simp [controlHeld, hplace.control, hm.2.1]
  obtain ⟨pre, post, hq, -⟩ := releaseControls_request hheld hqueue
  rw [step_running running]
  refine ⟨hplace.releases, pre, m, post, hq, ?_, hm⟩
  have hlength : (w.act env (.callback x cb)).releaseControls.releaseInsts.queue.length =
      (pre ++ m :: post).length := congrArg List.length hq
  rw [hlength]
  simp

/-- In every run of a control that is installed when WebRTC reports that a registered
connection cannot go on, and that loses its observer only by closing everything as long
as the entry is there: once the messages queued at the report have been processed, the
connection is in no registry and its close has been reported, unless the report is a
failed description or a failed ICE connection. -/
theorem dead_entry_gone (env : Env) (as bs : List Action) (c : ℕ) (k : String) (x : ℕ)
    (cb : Callback) (hc : (run (World.step env) init as).control = some c)
    (hx : ((run (World.step env) init as).controls c).peers.find? k = some x)
    (hfatal : cb.Fatal ((run (World.step env) init as).insts x)) (hi : ¬ cb.Ignored)
    (ht : Along (World.step env) (fun w a => InPlace c k x w → Tidy env w a)
      (World.step env (run (World.step env) init as) (.callback x cb)) bs)
    (hn : (World.step env (run (World.step env) init as) (.callback x cb)).queue.length ≤
      bs.countP Action.isProcess)
    (hf : (run (World.step env) init (as ++ .callback x cb :: bs)).fault = none) :
    Gone c k x (run (World.step env) init (as ++ .callback x cb :: bs)) := by
  have hw := reached_run env as
  have hstanding := standing_run env as
  rw [run_append, run_cons] at hf ⊢
  generalize run (World.step env) init as = w at *
  have running : w.fault = none := running_of_run (.callback x cb :: bs) hf
  exact (waiting_of_fatal hw hstanding ⟨hc, hx⟩ hfatal hi running).run (hw.step _) ht hn hf

/-- A connection is being made. -/
def offering : List Action :=
  [.api .open, .net (.connectInternal true), .net (.onOpen 0),
    .command (createOfferMessage ["b"]) none, .process]

theorem dead_entry_gone_disconnected :
    Gone 0 "b" 0 (run (World.step (.idle "a" (by decide))) init
      (offering ++ [.callback 0 (.onIceConnectionChange .disconnected), .process])) :=
  dead_entry_gone (.idle "a" (by decide)) offering [.process] 0 "b" 0
    (.onIceConnectionChange .disconnected) (by decide +kernel) (by decide +kernel)
    (Or.inr (Or.inl rfl)) (by simp [Callback.Ignored]) ⟨fun _ => by decide +kernel, trivial⟩
    (by decide +kernel) (by decide +kernel)

/-- The offer cannot be made: nothing is queued, and the entry stays. -/
theorem failedOffer_stays :
    Callback.Fatal ((run (World.step (.idle "a" (by decide))) init offering).insts 0) .onFailure ∧
    (run (World.step (.idle "a" (by decide))) init (offering ++ [.callback 0 .onFailure])).queue = [] ∧
    (run (World.step (.idle "a" (by decide))) init
      (offering ++ [.callback 0 .onFailure])).fault = none ∧
    ¬ Gone 0 "b" 0 (run (World.step (.idle "a" (by decide))) init
      (offering ++ [.callback 0 .onFailure])) := by
  refine ⟨?_, ?_, by decide +kernel, fun h => ?_⟩
  · unfold Callback.Fatal
    decide +kernel
  · have h : (run (World.step (.idle "a" (by decide))) init
      (offering ++ [.callback 0 .onFailure])).queue.length = 0 := by decide +kernel
    exact List.eq_nil_of_length_eq_zero h
  · exact h.unregistered 0 "b" (by decide +kernel)

end World

end PeerApi
