import PeerApi.Session.Ticks

/-! Every handler of the world is a sequence of ticks, and so is every step up to
the release of objects at its end. -/

namespace PeerApi.World

open Base Relation

variable {env : Env} {G : Guard} {w : World}

/-- The control may raise every event that closes none but the given ids. -/
def Guard.Admitting (G : Guard) (c : ℕ) (ids : List String) : Prop :=
  ∀ e : Event, (∀ id, e.Closes id → id ∈ ids) → G.raises c e

theorem Guard.Admitting.mono {c : ℕ} {ids ids' : List String} (h : G.Admitting c ids')
    (hsub : ids ⊆ ids') : G.Admitting c ids :=
  fun e he => h e fun id hid => hsub (he id hid)

/-! ### Closing -/

/-- A close event that an instance raises is for its remote id. -/
theorem event_closes {p : PeerControl} {f : Effect} {e : Event} {id : String}
    (he : f.event? = some e) (hid : e.Closes id) (hok : f.Ok p) : id = p.remoteId := by
  cases f with
  | onPeerClose peerId code =>
    cases he
    exact (show peerId = id from hid).symm.trans hok
  | onPeerConnect => cases he; exact hid.elim
  | onPeerMessage => cases he; exact hid.elim
  | onPeerWritable => cases he; exact hid.elim
  | _ => cases he

/-- The effects of a removal are about the removed object, which keeps its identity. -/
theorem removePeer_effects (env : Env) {x : ℕ} (hl : (w.insts x).Live) (c : ℕ) (k : String)
    (code : CloseCode) :
    PeerControl.SameIdentity (w.insts x) ((w.removePeer env c k x code).insts x) ∧
      ∀ f ∈ removeEffects env x code w, f.Ok ((w.removePeer env c k x code).insts x) := by
  have hs := hl.close_same code (env.onRelease x)
  have hsame : PeerControl.SameIdentity (w.insts x) ((w.removePeer env c k x code).insts x) := by
    rw [show (w.removePeer env c k x code).insts x = _ from setInst_insts_self _ _ _]
    exact ⟨hs.control, hs.localId, hs.remoteId, hs.role, hs.origin, hs.released⟩
  refine ⟨hsame, fun f hf => hsame.ok_iff.mpr ?_⟩
  rcases List.mem_cons.mp hf with rfl | hf
  · trivial
  · exact hl.close_ok code _ f hf

/-- Closing a registered peer erases its entry and performs what its `Close` does. -/
theorem closePeer_calls_of {raises : ℕ → Event → Prop} (hw : Sound env w) {c : ℕ} {k : String}
    {x : ℕ} (hx : (w.controls c).peers.find? k = some x) (code : CloseCode)
    (hr : ∀ f ∈ removeEffects env x code w, ∀ e, f.event? = some e → raises c e) :
    Calls env raises (performing x (removeEffects env x code w))
      (w.removePeer env c k x code) (w.closePeer env c code k) := by
  have hl := hw.entries c k x hx
  obtain ⟨hs, hok⟩ := removePeer_effects env hl.live c k code
  unfold closePeer
  split
  next h => simp [h] at hx
  next y hy =>
    obtain rfl : x = y := Option.some.inj (hx.symm.trans hy)
    refine (performs_calls (hw.removePeer hx code).channelsSet (fun f hf => ⟨rfl, hf⟩) hok ?_).trans
      (leaveChannel_moves k _).calls
    rw [hs.control.trans hl.control]
    exact hr

theorem closePeer_calls (hw : Sound env w) {c : ℕ} {k : String} {x : ℕ}
    (hx : (w.controls c).peers.find? k = some x) (code : CloseCode) :
    Calls env (fun d e => d = c ∧ ∀ id, e.Closes id → id = k)
      (performing x (removeEffects env x code w))
      (w.removePeer env c k x code) (w.closePeer env c code k) := by
  have hl := hw.entries c k x hx
  obtain ⟨hs, hok⟩ := removePeer_effects env hl.live c k code
  refine closePeer_calls_of hw hx code fun f hf e he => ⟨rfl, fun id hid => ?_⟩
  exact (event_closes he hid (hok f hf)).trans (hs.remoteId.trans hl.remoteId)

theorem closePeer_ticks (hw : Sound env w) (c : ℕ) (code : CloseCode) (k : String)
    (hr : ((w.controls c).peers.find? k).isSome = true → G.Admitting c [k]) :
    Ticks env G w (w.closePeer env c code k) := by
  cases hx : (w.controls c).peers.find? k with
  | none =>
    simp only [closePeer, hx]
    exact .refl
  | some x =>
    refine .single (.closed c k x code hx ((closePeer_calls hw hx code).mono ?_))
    rintro _ e ⟨rfl, he⟩
    exact hr (by rw [hx]; rfl) e fun id hid => List.mem_singleton.mpr (he id hid)

theorem closePeers_ticks (hw : Sound env w) (c : ℕ) (code : CloseCode) (ids : List String)
    (hr : G.Admitting c ids) :
    Ticks env G w (ids.foldl (closePeer env c code) w) := by
  induction ids generalizing w with
  | nil => exact .refl
  | cons id ids ih =>
    have h : Ticks env G w (w.closePeer env c code id) :=
      closePeer_ticks hw c code id fun _ => hr.mono (by simp)
    exact h.trans (ih (h.sound hw) (hr.mono (List.subset_cons_self id ids)))

/-- `Control::Close` visits the keys of `peers_`. -/
theorem Sound.remoteIds (hw : Sound env w) (c : ℕ) :
    (w.controls c).peers.entries.map (fun e => (w.insts e.2).remoteId) =
      (w.controls c).peers.entries.map Prod.fst := by
  refine List.map_congr_left fun e he => ?_
  exact (hw.entries c e.1 e.2 (OrderedMap.mem_entries.mp he)).remoteId

theorem close_ticks (hw : Sound env w) {c : ℕ} (hc : (w.controls c).thread = true)
    (code : CloseCode)
    (hr : G.Admitting c (env.peerId :: (w.controls c).peers.entries.map Prod.fst)) :
    Ticks env G w (w.close env c code) := by
  have h : Ticks env G w _ := closePeers_ticks hw c code
    ((w.controls c).peers.entries.map fun e => (w.insts e.2).remoteId)
    (hw.remoteIds c ▸ hr.mono (List.subset_cons_self _ _))
  refine h.trans (Calls.ticks (observeIfSet_calls (h.sound hw).channelsSet
    (Or.inr ⟨_, _, _, rfl⟩) (hr _ fun id hid => ?_)))
  rw [← show _ = id from hid, (h.sound hw).named c (h.grows.threads c hc)]
  exact List.mem_cons_self

/-! ### Commands -/

theorem onOpen_ticks {c : ℕ} (hc : (w.controls c).thread = true) (data : Json) :
    Ticks env G w (w.onOpen env c data) := by
  unfold onOpen
  split
  · split
    · exact .refl
    next sessionId _ =>
      exact (ReflTransGen.single (Tick.call (.move (.session w c sessionId hc)))).trans
        (createChannel_moves _ _).calls.ticks
  · exact .refl

theorem observe_ticks (hw : Sound env w) (c : ℕ) {e : Event}
    (he : (∃ id, e = .open id) ∨ ∃ id code desc, e = .close id code desc)
    (hr : G.raises c e) : Ticks env G w (w.observe env c none e) := by
  have ok : EventOk nobody w c none e := he
  exact (observe_calls hw.channelsSet ok hr).ticks

/-- A reply about the creation of a channel closes the id it refuses, or opens one. -/
theorem onChannelCreate_cases (w : World) (c : ℕ) (data : Json) :
    (∃ id desc, refusedId env data (w.controls c).peerName = some id ∧
      w.onChannelCreate env c data = w.observe env c none (.close id .signalError desc)) ∨
    (∃ id, refusedId env data (w.controls c).peerName = none ∧
      w.onChannelCreate env c data = w.observe env c none (.open id)) := by
  unfold refusedId onChannelCreate
  cases env.rtc.getBoolFromJsonObject data "result" with
  | none => exact Or.inl ⟨_, _, rfl, rfl⟩
  | some result =>
    cases env.rtc.getStringFromJsonObject data "name" with
    | none => exact Or.inl ⟨_, _, rfl, rfl⟩
    | some peerId =>
      cases result with
      | true => exact Or.inr ⟨_, rfl, rfl⟩
      | false => exact Or.inl ⟨_, _, rfl, rfl⟩

/-- A reply about joining a channel closes the id it refuses, or does nothing. -/
theorem onChannelJoin_cases (w : World) (c : ℕ) (data : Json) :
    (∃ id desc, refusedId env data "" = some id ∧
      w.onChannelJoin env c data = w.observe env c none (.close id .signalError desc)) ∨
    (refusedId env data "" = none ∧ w.onChannelJoin env c data = w) := by
  unfold refusedId onChannelJoin
  cases env.rtc.getBoolFromJsonObject data "result" with
  | none => exact Or.inl ⟨_, _, rfl, rfl⟩
  | some result =>
    cases env.rtc.getStringFromJsonObject data "name" with
    | none => exact Or.inl ⟨_, _, rfl, rfl⟩
    | some peerId =>
      cases result with
      | true => exact Or.inr ⟨rfl, rfl⟩
      | false => exact Or.inl ⟨_, _, rfl, rfl⟩

theorem refusal_ticks (hw : Sound env w) (c : ℕ) {id : String} (code : CloseCode) (desc : String)
    (hr : G.Admitting c [id]) : Ticks env G w (w.observe env c none (.close id code desc)) := by
  refine observe_ticks hw c (Or.inr ⟨_, _, _, rfl⟩) (hr _ fun id' h => ?_)
  rw [← show id = id' from h]
  exact List.mem_cons_self

theorem onChannelCreate_ticks (hw : Sound env w) (c : ℕ) (data : Json)
    (hr : G.Admitting c (refusedId env data (w.controls c).peerName).toList) :
    Ticks env G w (w.onChannelCreate env c data) := by
  rcases onChannelCreate_cases w c data with ⟨id, desc, hid, he⟩ | ⟨id, -, he⟩
  · rw [hid] at hr
    rw [he]
    exact refusal_ticks hw c _ desc hr
  · rw [he]
    exact observe_ticks hw c (Or.inl ⟨_, rfl⟩) (hr _ fun id h => h.elim)

theorem onChannelJoin_ticks (hw : Sound env w) (c : ℕ) (data : Json)
    (hr : G.Admitting c (refusedId env data "").toList) :
    Ticks env G w (w.onChannelJoin env c data) := by
  rcases onChannelJoin_cases w c data with ⟨id, desc, hid, he⟩ | ⟨-, he⟩
  · rw [hid] at hr
    rw [he]
    exact refusal_ticks hw c _ desc hr
  · rw [he]

theorem reject_ticks (hw : Sound env w) {c : ℕ} (hc : (w.controls c).thread = true)
    (remoteId : String) (failed : (env.initOutcome w.nextInst).ok = false)
    (hr : G.Admitting c [remoteId]) :
    Ticks env G w (w.reject env c (newPeer env c remoteId w).1) := by
  have h : Tick env G w (w.newInst (newPeer env c remoteId w).1) := .rejected w c remoteId hc failed
  have hid : (newPeer env c remoteId w).1.remoteId = remoteId := by rw [newPeer_failed failed]; rfl
  refine (ReflTransGen.single h).trans (Calls.ticks (observeIfSet_calls (h.sound hw).channelsSet
    (Or.inr ⟨_, _, _, rfl⟩) (hr _ fun id h' => ?_)))
  rw [← show _ = id from h', hid]
  exact List.mem_cons_self

theorem register_ticks {c : ℕ} (hc : (w.controls c).thread = true) {p : PeerControl}
    (new : NewPeer env G w c p) {id : String} {ids : List String} (hid : p.remoteId = id)
    (hst : G.starts w c (id :: ids)) : Tick env G w (w.register c p) :=
  .registered w c p ids hc new (hid ▸ hst)

theorem createOffers_ticks (hw : Sound env w) {c : ℕ} (hc : (w.controls c).thread = true)
    (items : List (Option Json)) (hst : G.starts w c (offered env w.nextInst items).1)
    (hoffers : ∀ id ∈ (offered env w.nextInst items).1, G.offers id)
    (hr : G.Admitting c (offered env w.nextInst items).2.toList) :
    Ticks env G w (createOffers env c items w) := by
  induction items generalizing w with
  | nil => exact .refl
  | cons item items ih =>
    simp only [createOffers]
    simp only [offered] at hst hr hoffers
    split
    · exact .refl
    next remoteId hitem =>
      rw [hitem] at hst hr hoffers
      dsimp only at hst hr hoffers
      by_cases ok : (env.initOutcome w.nextInst).ok = true
      · rw [if_pos ok] at hst hr hoffers
        have hid : (newPeer env c remoteId w).1.createOffer.remoteId = remoteId := by
          rw [newPeer_ok ok]; rfl
        have ht : Tick env G w _ :=
          register_ticks hc (.offer remoteId ok (hoffers _ List.mem_cons_self)) hid hst
        rw [if_pos (by rw [newPeer_ok ok])]
        exact .head ht (ih (ht.sound hw) (ht.grows.threads c hc) (G.starts_register hid hst)
          (fun id h => hoffers id (List.mem_cons_of_mem remoteId h)) hr)
      · rw [if_neg ok] at hst hr
        have failed : (env.initOutcome w.nextInst).ok = false := by simpa using ok
        rw [if_neg (by rw [newPeer_failed failed]; simp)]
        exact reject_ticks hw hc remoteId failed hr

theorem receiveOfferSdp_ticks (hw : Sound env w) {c : ℕ} (hc : (w.controls c).thread = true)
    (peerId : String) (data : Json) (origin : Option ℕ) (horigin : G.origin .offer peerId origin)
    (hst : G.starts w c (planned env w.nextInst "offersdp" peerId data).1)
    (hr : G.Admitting c (planned env w.nextInst "offersdp" peerId data).2.toList) :
    Ticks env G w (w.receiveOfferSdp env c peerId data origin) := by
  simp only [planned, String.reduceEq, if_true, if_false] at hst hr
  unfold receiveOfferSdp
  split
  · exact .refl
  next sdp hsdp =>
    rw [hsdp] at hst hr
    dsimp only at hst hr ⊢
    by_cases ok : (env.initOutcome w.nextInst).ok = true
    · rw [if_pos ok] at hst
      have hid : ((newPeer env c peerId w).1.receiveOfferSdp sdp origin).remoteId = peerId := by
        rw [newPeer_ok ok]; rfl
      rw [if_pos (by rw [newPeer_ok ok])]
      exact .single (register_ticks hc (.answer peerId sdp origin ok horigin) hid hst)
    · rw [if_neg ok] at hr
      have failed : (env.initOutcome w.nextInst).ok = false := by simpa using ok
      rw [if_neg (by rw [newPeer_failed failed]; simp)]
      exact reject_ticks hw hc peerId failed hr

theorem receiveAnswerSdp_ticks (hw : Sound env w) (c : ℕ) (peerId : String) (data : Json)
    (origin : Option ℕ) (horigin : G.origin .answer peerId origin) :
    Ticks env G w (w.receiveAnswerSdp env c peerId data origin) := by
  unfold receiveAnswerSdp
  split
  · exact .refl
  · split
    · exact .refl
    next sdp _ _ x hx =>
      have hl := (hw.entries c peerId x hx).live
      have ht : Tick env G w _ := .answered w c peerId x sdp origin hx horigin
      convert ReflTransGen.single ht using 1
      simp only [runPeer, logged, hl.receiveAnswerSdp_eq, List.foldl_cons, List.foldl_nil, perform,
        ite_self]

theorem addIceCandidate_ticks (hw : Sound env w) (c : ℕ) (peerId : String) (data : Json) :
    Ticks env G w (w.addIceCandidate env c peerId data) := by
  unfold addIceCandidate
  split
  · split
    · exact .refl
    next sdpMid sdpMlineIndex candidate _ _ _ _ x hx =>
      have hl := (hw.entries c peerId x hx).live
      have ht : Tick env G w _ := .candidate w c peerId x sdpMid sdpMlineIndex candidate hx
      convert ReflTransGen.single ht using 1
      simp only [runPeer, logged, hl.addIceCandidate_eq, List.foldl_nil]
  · exact .refl

/-! ### Messages -/

/-- The guard admits what the message starts, raises and brings along. -/
structure Admits (env : Env) (G : Guard) (w : World) (m : Message) : Prop where
  starts : G.starts w m.handler (startedIds env w m)
  raises : G.Admitting m.handler (closedIds env w m)
  offers : m.messageId = .commandReceived → ∀ peerId data,
    parseCommand env m.data.dataJson = some ("createoffer", peerId, data) →
    ∀ id ∈ startedIds env w m, G.offers id
  origin : m.messageId = .commandReceived → ∀ type peerId data,
    parseCommand env m.data.dataJson =
      some (PeerControl.descriptionCommand type, peerId, data) → G.origin type peerId m.origin

theorem onCommandReceived_none {message : Json} (hp : parseCommand env message = none) (c : ℕ)
    (origin : Option ℕ) : w.onCommandReceived env c message origin = w := by
  unfold parseCommand at hp
  unfold onCommandReceived
  cases hcmd : env.rtc.getStringFromJsonObject message "command" with
  | none => rfl
  | some command =>
    cases hdata : env.rtc.getValueFromJsonObject message "data" with
    | none => rfl
    | some data =>
      rw [hcmd, hdata] at hp
      cases hp

theorem onCommandReceived_some {message data : Json} {command peerId : String}
    (hp : parseCommand env message = some (command, peerId, data)) (c : ℕ) (origin : Option ℕ) :
    w.onCommandReceived env c message origin =
      if command = "open" then w.onOpen env c data
      else if command = "channelcreate" then w.onChannelCreate env c data
      else if command = "channeljoin" then w.onChannelJoin env c data
      else if command = "channelleave" then w
      else if command = "peerclosed" then w.closePeer env c .normal peerId
      else if command = "createoffer" then w.createOffer env c data
      else if command = "offersdp" then w.receiveOfferSdp env c peerId data origin
      else if command = "answersdp" then w.receiveAnswerSdp env c peerId data origin
      else if command = "ice_candidate" then w.addIceCandidate env c peerId data
      else w := by
  unfold parseCommand at hp
  unfold onCommandReceived
  cases hcmd : env.rtc.getStringFromJsonObject message "command" with
  | none =>
    rw [hcmd] at hp
    cases hp
  | some command =>
    cases hdata : env.rtc.getValueFromJsonObject message "data" with
    | none =>
      rw [hcmd, hdata] at hp
      cases hp
    | some data =>
      rw [hcmd, hdata] at hp
      cases hp
      rfl

/-- A command is given to one of the handlers or ignored. -/
theorem onCommandReceived_cases {motive : World → Prop} {message data : Json}
    {command peerId : String} (hp : parseCommand env message = some (command, peerId, data)) (c : ℕ)
    (origin : Option ℕ)
    (opened : command = "open" → motive (w.onOpen env c data))
    (created : command = "channelcreate" → motive (w.onChannelCreate env c data))
    (joined : command = "channeljoin" → motive (w.onChannelJoin env c data))
    (closed : command = "peerclosed" → motive (w.closePeer env c .normal peerId))
    (asked : command = "createoffer" → motive (w.createOffer env c data))
    (offered : command = "offersdp" → motive (w.receiveOfferSdp env c peerId data origin))
    (answered : command = "answersdp" → motive (w.receiveAnswerSdp env c peerId data origin))
    (candidate : command = "ice_candidate" → motive (w.addIceCandidate env c peerId data))
    (ignored : motive w) : motive (w.onCommandReceived env c message origin) := by
  rw [onCommandReceived_some hp]
  refine iteInduction opened fun _ => ?_
  refine iteInduction created fun _ => ?_
  refine iteInduction joined fun _ => ?_
  refine iteInduction (fun _ => ignored) fun _ => ?_
  refine iteInduction closed fun _ => ?_
  refine iteInduction asked fun _ => ?_
  refine iteInduction offered fun _ => ?_
  refine iteInduction answered fun _ => ?_
  exact iteInduction candidate fun _ => ignored

theorem onCommandReceived_ticks (hw : Sound env w) {m : Message}
    (hc : (w.controls m.handler).thread = true) (hm : m.messageId = .commandReceived)
    (ha : Admits env G w m) :
    Ticks env G w (w.onCommandReceived env m.handler m.data.dataJson m.origin) := by
  obtain ⟨hst, hr, hoffers, horigin⟩ := ha
  replace hoffers := hoffers hm
  replace horigin := horigin hm
  cases hp : parseCommand env m.data.dataJson with
  | none => rw [onCommandReceived_none hp]
  | some p =>
    obtain ⟨command, peerId, data⟩ := p
    simp only [startedIds, closedIds, hm, hp] at hst hr hoffers
    refine onCommandReceived_cases (motive := Ticks env G w) hp _ _ ?_ ?_ ?_ ?_ ?_ ?_ ?_ ?_ .refl
    · exact fun _ => onOpen_ticks hc data
    · rintro rfl
      exact onChannelCreate_ticks hw _ data (hr.mono (by simp [commandCloses]))
    · rintro rfl
      exact onChannelJoin_ticks hw _ data (hr.mono (by simp [commandCloses]))
    · rintro rfl
      exact closePeer_ticks hw _ _ _ fun hsome => hr.mono (by simp [commandCloses, hsome])
    · rintro rfl
      simp only [planned, commandCloses, String.reduceEq, if_true, if_false] at hst hr
      replace hoffers := hoffers peerId data rfl
      simp only [planned, if_true] at hoffers
      unfold createOffer
      split
      · exact .refl
      next peers hpeers =>
        rw [hpeers] at hst hr hoffers
        exact createOffers_ticks hw hc _ hst hoffers hr
    · rintro rfl
      exact receiveOfferSdp_ticks hw hc peerId data m.origin (horigin .offer _ _ hp) hst
        (hr.mono (by simp [commandCloses]))
    · rintro rfl
      exact receiveAnswerSdp_ticks hw _ peerId data m.origin (horigin .answer _ _ hp)
    · exact fun _ => addIceCandidate_ticks hw _ peerId data

theorem onMessage_ticks (hw : Sound env w) {m : Message}
    (hc : (w.controls m.handler).thread = true) (ha : Admits env G w m) :
    Ticks env G w (w.onMessage env m) := by
  have hclose (code : CloseCode) (h : closedIds env w m = (w.controls m.handler).peerName ::
      (w.controls m.handler).peers.entries.map Prod.fst) :
      Ticks env G w (w.close env m.handler code) := by
    refine close_ticks hw hc code (ha.raises.mono ?_)
    rw [h, hw.named _ hc]
    exact List.Subset.refl _
  unfold onMessage
  dsimp only
  split
  next h => exact onCommandReceived_ticks hw hc h ha
  next h => exact hclose _ (by simp only [closedIds, h])
  next h =>
    exact closePeer_ticks hw _ _ _ fun hsome => ha.raises.mono (by simp [closedIds, h, hsome])
  next h =>
    refine Calls.ticks (observeIfSet_calls hw.channelsSet (Or.inr ⟨_, _, _, rfl⟩)
      (ha.raises _ fun id hid => ?_))
    rw [← show _ = id from hid]
    simp only [closedIds, h, List.mem_singleton]
  next h => exact hclose _ (by simp only [closedIds, h])

/-! ### Steps -/

/-- The guard admits the action in the given world. -/
def Admitted (env : Env) (G : Guard) (w : World) : Action → Prop
  | .process => ∀ m queue, w.queue = m :: queue → Admits env G { w with queue := queue } m
  | .callback x cb => G.report w x cb ∧ G.Admitting (w.insts x).control []
  | .command message origin => G.receives message origin
  | _ => True

/-- Between steps, an object that was never started has been released. -/
structure Reached (env : Env) (w : World) : Prop extends Sound env w where
  settled : ∀ x, x < w.nextInst → (w.insts x).released = false → (w.insts x).Started

theorem reached_init (env : Env) : Reached env init where
  toSound := sound_init env
  settled x hx := by cases hx

/-! ### Releases -/

/-- The control is destroyed at the end of the step. -/
def Dying (w : World) (c : ℕ) : Prop :=
  c < w.nextControl ∧ (w.controls c).destroyed = false ∧ w.controlHeld c = false

theorem releaseControls_dying {c : ℕ} (h : w.Dying c) :
    w.releaseControls.controls c = { w.controls c with destroyed := true, peers := ∅ } := by
  simp [releaseControls, h.1, h.2.1, h.2.2]

theorem releaseControls_stays {c : ℕ} (h : ¬ w.Dying c) :
    w.releaseControls.controls c = w.controls c := by
  simp only [Dying, not_and] at h
  simp only [releaseControls]
  rw [if_neg]
  simp only [Bool.and_eq_true, decide_eq_true_eq, Bool.not_eq_true', not_and, Bool.not_eq_false,
    and_imp]
  exact fun h1 h2 => by simpa using h h1 h2

theorem releaseControls_keeps {α : Type*} (f : Control → α)
    (hf : ∀ k, f { k with destroyed := true, peers := ∅ } = f k) (c : ℕ) :
    f (w.releaseControls.controls c) = f (w.controls c) := by
  by_cases h : w.Dying c
  · rw [releaseControls_dying h, hf]
  · rw [releaseControls_stays h]

theorem releaseControls_find? {c : ℕ} {k : String} {x : ℕ}
    (h : (w.releaseControls.controls c).peers.find? k = some x) :
    (w.controls c).peers.find? k = some x := by
  by_cases hd : w.Dying c
  · simp [releaseControls_dying hd] at h
  · rwa [releaseControls_stays hd] at h

theorem releaseControls_queue {m : Message} (h : m ∈ w.releaseControls.queue) : m ∈ w.queue :=
  List.mem_of_mem_filter h

theorem Sound.releaseControls (hw : Sound env w) : Sound env w.releaseControls := by
  have ho := releaseControls_keeps (w := w) (·.observer) (fun _ => rfl)
  have ht := releaseControls_keeps (w := w) (·.thread) (fun _ => rfl)
  have hr := releaseControls_keeps (w := w) (·.ref) (fun _ => rfl)
  have hn := releaseControls_keeps (w := w) (·.peerName) (fun _ => rfl)
  refine { hw with fresh := ?_, installed := ?_, observed := ?_, named := ?_, queued := ?_
                   bound := ?_, entries := ?_, owners := ?_ }
  · intro c hc
    have hc' : w.nextControl ≤ c := hc
    rw [releaseControls_stays fun hd => Nat.lt_irrefl c (hd.1.trans_le hc')]
    exact hw.fresh c hc
  · intro c hc
    rw [ho, hr, ht]
    exact hw.installed c hc
  · intro c hco hct
    exact hw.observed c (ho c ▸ hco) (ht c ▸ hct)
  · intro c hct
    rw [hn]
    exact hw.named c (ht c ▸ hct)
  · intro m hm
    rw [ht]
    exact hw.queued m (releaseControls_queue hm)
  · exact fun c k x hx => hw.bound c k x (releaseControls_find? hx)
  · exact fun c k x hx => hw.entries c k x (releaseControls_find? hx)
  · exact fun x hx => (ht _).trans (hw.owners x hx)

/-- The instance is released at the end of the step. -/
def Lost (w : World) (x : ℕ) : Prop := x < w.nextInst ∧ w.instHeld x = false

theorem releaseInsts_lost {x : ℕ} (h : w.Lost x) :
    w.releaseInsts.insts x = { w.insts x with released := true } := if_pos h

theorem releaseInsts_stays {x : ℕ} (h : ¬ w.Lost x) : w.releaseInsts.insts x = w.insts x := if_neg h

theorem releaseInsts_keeps {α : Type*} (f : PeerControl → α)
    (hf : ∀ p, f { p with released := true } = f p) (x : ℕ) :
    f (w.releaseInsts.insts x) = f (w.insts x) := by
  by_cases h : w.Lost x
  · rw [releaseInsts_lost h, hf]
  · rw [releaseInsts_stays h]

theorem Sound.not_lost (hw : Sound env w) {c : ℕ} {k : String} {x : ℕ}
    (hx : (w.controls c).peers.find? k = some x) : ¬ w.Lost x := by
  intro hl
  have he := hw.entries c k x hx
  have hh := hl.2
  simp only [instHeld, Bool.or_eq_false_iff, List.any_eq_false] at hh
  refine hh.2 (k, x) ?_ (by simp)
  rw [he.control]
  exact OrderedMap.mem_entries.mpr hx

theorem Sound.releaseInsts (hw : Sound env w) : Reached env w.releaseInsts := by
  refine { hw with entries := ?_, insts := ?_, owners := ?_, settled := ?_ }
  · intro c k x hx
    rw [releaseInsts_stays (hw.not_lost hx)]
    exact hw.entries c k x hx
  · intro x hx
    by_cases h : w.Lost x
    · rw [releaseInsts_lost h]
      exact (hw.insts x hx).imp (fun hs => ⟨hs.role, hs.localChannel, hs.pending⟩)
        fun hj => ⟨hj.role, hj.pending, hj.state⟩
    · rw [releaseInsts_stays h]
      exact hw.insts x hx
  · intro x hx
    rw [releaseInsts_keeps (·.control) (fun _ => rfl)]
    exact hw.owners x hx
  · intro x hx hr
    by_cases h : w.Lost x
    · rw [releaseInsts_lost h] at hr
      cases hr
    · rw [releaseInsts_stays h]
      refine (hw.insts x hx).resolve_right fun hj => ?_
      have hheld : w.instHeld x = true := by
        by_contra hn
        exact h ⟨hx, by simpa using hn⟩
      simp only [instHeld, hj.pending, Option.isSome_none, Bool.false_or, List.any_eq_true,
        decide_eq_true_eq] at hheld
      obtain ⟨e, he, rfl⟩ := hheld
      have := (hw.entries _ e.1 e.2 (OrderedMap.mem_entries.mp he)).live.role
      simp [hj.role] at this

/-! ### Runs -/

/-- A callback changes its object and performs its effects. -/
theorem callback_calls_of (raises : ℕ → Event → Prop) (hw : Reached env w) {x : ℕ}
    (hx : x < w.nextInst ∧ (w.insts x).released = false) {cb : Callback}
    (hr : ∀ f ∈ ((w.insts x).callback cb).2, ∀ e, f.event? = some e →
      raises (w.insts x).control e) :
    Calls env raises (performing x ((w.insts x).callback cb).2)
      (w.setInst x (logged ((w.insts x).callback cb))) (w.act env (.callback x cb)) := by
  have started := hw.settled x hx.1 hx.2
  obtain ⟨h1, h2, h3, h4, h5, h6⟩ := (PeerControl.callback_keeps (w.insts x) cb).same
  simp only [act, if_pos hx]
  refine performs_calls (hw.toSound.callback started cb).channelsSet (fun f hf => ⟨rfl, hf⟩)
    (fun f hf => ?_) ?_
  · rw [setInst_insts_self]
    exact (PeerControl.SameIdentity.ok_iff ⟨h1, h2, h3, h4, h5, h6⟩).mpr
      (PeerControl.callback_ok started cb f hf)
  · rw [setInst_insts_self, show (logged ((w.insts x).callback cb)).control = _ from h1]
    exact hr

/-- None of its effects is a close event. -/
theorem callback_calls (hw : Reached env w) {x : ℕ}
    (hx : x < w.nextInst ∧ (w.insts x).released = false) (cb : Callback) :
    Calls env (fun d e => d = (w.insts x).control ∧ ∀ id, ¬ e.Closes id)
      (performing x ((w.insts x).callback cb).2)
      (w.setInst x (logged ((w.insts x).callback cb))) (w.act env (.callback x cb)) := by
  refine callback_calls_of _ hw hx fun f hf e he => ⟨rfl, fun id hid => ?_⟩
  cases f with
  | onPeerClose peerId code =>
    exact absurd hf (PeerControl.callback_onPeerClose _ cb peerId code)
  | onPeerConnect => cases he; exact hid.elim
  | onPeerMessage => cases he; exact hid.elim
  | onPeerWritable => cases he; exact hid.elim
  | _ => cases he

/-- A command is posted to every control. -/
theorem signalOnCommandReceived_ticks {message : Json} {origin : Option ℕ}
    (h : G.receives message origin) (w : World) :
    Ticks env G w (w.signalOnCommandReceived message origin) := by
  refine foldl_moves (fun w c => ?_) _ w
  unfold onSignalCommandReceived post
  split_ifs with ht
  · exact .single (.received w c message origin ht h)
  · exact .single (.call (.move (.crash w _ (by simp [Fault.Outside]))))

theorem act_ticks (hw : Reached env w) {a : Action} (ha : Admitted env G w a) :
    Ticks env G w (w.act env a) := by
  cases a with
  | api a => exact (api_moves hw.channelsSet a).calls.ticks
  | command message origin => exact signalOnCommandReceived_ticks ha w
  | net a => exact (net_moves w a).calls.ticks
  | process =>
    simp only [act, process]
    split
    · exact .refl
    next m queue hq =>
      have hd : Tick env G w { w with queue := queue } := .dequeued w m queue hq
      have hm := hw.queued m (by rw [hq]; exact List.mem_cons_self)
      exact .head hd (onMessage_ticks (hd.sound hw.toSound) hm (ha m queue hq))
  | callback x cb =>
    by_cases hx : x < w.nextInst ∧ (w.insts x).released = false
    · refine .single (.callback x cb hx.1 hx.2 (hw.settled x hx.1 hx.2) ha.1
        ((callback_calls hw hx cb).mono ?_))
      rintro _ e ⟨rfl, he⟩
      exact ha.2 e fun id hid => absurd hid (he id)
    · simp only [act, if_neg hx]
      exact .refl

/-- What a step does: ticks, then the releases. -/
theorem step_ticks (hw : Reached env w) {a : Action} (ha : Admitted env G w a) :
    w.step env a = w ∨
      (w.fault = none ∧ Ticks env G w (w.act env a) ∧
        w.step env a = (w.act env a).releaseControls.releaseInsts) := by
  unfold step
  split_ifs with h
  · exact Or.inl rfl
  · exact Or.inr ⟨by simpa using h, act_ticks hw ha, rfl⟩

theorem admitted_free (env : Env) (w : World) (a : Action) : Admitted env .free w a := by
  cases a with
  | process =>
    exact fun m queue _ =>
      ⟨trivial, fun _ _ => trivial, fun _ _ _ _ _ _ => trivial, fun _ _ _ _ _ => trivial⟩
  | callback x cb => exact ⟨trivial, fun _ _ => trivial⟩
  | _ => trivial

theorem Reached.step (hw : Reached env w) (a : Action) : Reached env (w.step env a) := by
  rcases step_ticks hw (admitted_free env w a) with h | ⟨-, ht, h⟩
  · rwa [h]
  · rw [h]
    exact (ht.sound hw.toSound).releaseControls.releaseInsts

/-- The worlds of all runs satisfy the basic invariant. -/
theorem reached_run (env : Env) (as : List Action) : Reached env (run (World.step env) init as) :=
  run_invariant (fun _ a hw => hw.step a) (reached_init env) as

/-- What holds initially and is kept by every tick and by the releases holds in the
worlds of all runs. -/
theorem run_of_ticks {P : World → Prop} (hinit : P init)
    (htick : ∀ {w w'}, Tick env .free w w' → Sound env w → P w → P w')
    (hrelease : ∀ {w}, P w → P w.releaseControls.releaseInsts) (as : List Action) :
    P (run (World.step env) init as) := by
  have hstep : ∀ w a, Reached env w ∧ P w → Reached env (w.step env a) ∧ P (w.step env a) := by
    rintro w a ⟨hw, hp⟩
    refine ⟨hw.step a, ?_⟩
    rcases step_ticks hw (admitted_free env w a) with hs | ⟨-, ht, hs⟩
    · rwa [hs]
    · rw [hs]
      exact hrelease (calls_invariant (P := fun w => Sound env w ∧ P w)
        (fun ht hw => ⟨ht.sound hw.1, htick ht hw.1 hw.2⟩) ht ⟨hw.toSound, hp⟩).2
  exact (run_invariant hstep ⟨reached_init env, hinit⟩ as).2

/-- The sessions are the same: everything about the controls but their registries. -/
structure SameSessions (w w' : World) : Prop where
  control : w'.control = w.control
  nextControl : w'.nextControl = w.nextControl
  controls : ∀ c, { w'.controls c with peers := ∅ } = { w.controls c with peers := ∅ }

theorem SameSessions.of_controls {w w' : World} (hc : w'.control = w.control)
    (hn : w'.nextControl = w.nextControl) (h : w'.controls = w.controls) : SameSessions w w' :=
  ⟨hc, hn, fun _ => by rw [h]⟩

theorem modifyPeers_sessions (c : ℕ) (g : Control → OrderedMap String ℕ) (w : World) :
    SameSessions w (w.modifyControl c fun k => { k with peers := g k }) := by
  refine ⟨rfl, rfl, fun d => ?_⟩
  rw [modifyControl_controls]
  split_ifs with hd
  · rw [hd]
  · rfl

/-- The ticks besides calls and events only touch objects, registries and the queue. -/
theorem tick_of_moves {P : World → Prop} {w w' : World}
    (hmove : ∀ {src w w'}, Move env src w w' → Sound env w → P w → P w')
    (hevent : ∀ {c source e w w'}, EventMove env c source e w w' → Sound env w → P w → P w')
    (hsame : ∀ {w w'}, SameSessions w w' → P w → P w') (ht : Tick env G w w')
    (hw : Sound env w) (h : P w) : P w' := by
  have hcall : ∀ {raises src w w'}, Call env raises src w w' → Sound env w → P w → P w' := by
    intro raises src w w' hc hw h
    cases hc with
    | move hm => exact hmove hm hw h
    | event c source e running set ok admits moves =>
      exact (calls_invariant (P := fun w => Sound env w ∧ P w)
        (fun hm hw => ⟨hm.sound hw.1, hevent hm hw.1 hw.2⟩) moves ⟨hw, h⟩).2
  have hcalls : ∀ {raises src w w'}, Calls env raises src w w' → Sound env w → P w → P w' :=
    fun hc hw h => (calls_invariant (P := fun w => Sound env w ∧ P w)
      (fun hc hw => ⟨hc.sound hw.1, hcall hc hw.1 hw.2⟩) hc ⟨hw, h⟩).2
  have hkeep : ∀ w' : World, w'.control = w.control → w'.nextControl = w.nextControl →
      w'.controls = w.controls → P w' := fun w' h1 h2 h3 => hsame (.of_controls h1 h2 h3) h
  cases ht with
  | call hc => exact hcall hc hw h
  | callback x cb hx alive started report hc =>
    exact hcalls hc (hw.callback started cb) (hkeep _ rfl rfl rfl)
  | closed c k x code hx hc =>
    have hpeers := modifyPeers_sessions c (fun q => q.peers.erase k) w
    exact hcalls hc (hw.removePeer hx code)
      (hsame ⟨hpeers.control, hpeers.nextControl, hpeers.controls⟩ h)
  | registered c p ids thread new starts =>
    have hpeers := modifyPeers_sessions c (fun q => q.peers.insert p.remoteId w.nextInst)
      (w.newInst p)
    have hs : SameSessions w (w.register c p) :=
      ⟨hpeers.control, hpeers.nextControl, hpeers.controls⟩
    exact hsame hs h
  | dequeued m queue hq => exact hkeep _ rfl rfl rfl
  | received c message origin thread ok => exact hkeep _ rfl rfl rfl
  | answered c k x sdp origin hx from_ => exact hkeep _ rfl rfl rfl
  | candidate c k x sdpMid sdpMlineIndex candidate hx => exact hkeep _ rfl rfl rfl
  | rejected c remoteId thread failed => exact hkeep _ rfl rfl rfl

/-- What is about the sessions only holds in the worlds of all runs when the moves of
calls and events and the releases keep it. -/
theorem run_of_moves {P : World → Prop} (hinit : P init)
    (hmove : ∀ {src w w'}, Move env src w w' → Sound env w → P w → P w')
    (hevent : ∀ {c source e w w'}, EventMove env c source e w w' → Sound env w → P w → P w')
    (hsame : ∀ {w w'}, SameSessions w w' → P w → P w')
    (hrelease : ∀ {w}, P w → P w.releaseControls.releaseInsts) (as : List Action) :
    P (run (World.step env) init as) :=
  run_of_ticks hinit (fun ht hw h => tick_of_moves hmove hevent hsame ht hw h) hrelease as

end PeerApi.World
