import PeerApi.Session.Moves

/-! One step of the world as a sequence of ticks: calls that leave the registry
alone, and the few changes of an instance or of `peers_`. A guard restricts the
ticks of a step: the events a control may raise, the callbacks that may arrive,
the ids that may be started and the origins that may be taken from a message. -/

namespace PeerApi.World

open Base Relation

/-! ### What a message starts and closes -/

/-- The ids the loop of `Control::CreateOffer` starts when the next instance has
number `n`, and the id whose `Initialize` fails, which ends the loop. -/
def offered (env : Env) : ℕ → List (Option Json) → List String × Option String
  | _, [] => ([], none)
  | n, item :: items =>
    match item.bind env.rtc.getStringFromJson with
    | none => ([], none)
    | some remoteId =>
      if (env.initOutcome n).ok then
        let rest := offered env (n + 1) items
        (remoteId :: rest.1, rest.2)
      else ([], some remoteId)

/-- A command of the server, with its sender and its data. -/
def parseCommand (env : Env) (message : Json) : Option (String × String × Json) :=
  match env.rtc.getStringFromJsonObject message "command",
      env.rtc.getValueFromJsonObject message "data" with
  | some command, some data =>
    some (command, (env.rtc.getStringFromJsonObject message "peer_id").getD "", data)
  | _, _ => none

/-- The ids a command starts and the id it fails to start. -/
def planned (env : Env) (n : ℕ) (command peerId : String) (data : Json) :
    List String × Option String :=
  if command = "createoffer" then
    match env.rtc.getValueFromJsonObject data "peers" with
    | none => ([], none)
    | some peers => offered env n (env.rtc.items peers)
  else if command = "offersdp" then
    match env.rtc.getStringFromJsonObject data "sdp" with
    | none => ([], none)
    | some _ => if (env.initOutcome n).ok then ([peerId], none) else ([], some peerId)
  else ([], none)

/-- The ids a message starts. -/
def startedIds (env : Env) (w : World) (m : Message) : List String :=
  match m.messageId, parseCommand env m.data.dataJson with
  | .commandReceived, some (command, peerId, data) => (planned env w.nextInst command peerId data).1
  | _, _ => []

/-- The id a reply of the server about a channel closes; `missing` is used when the
reply is malformed. -/
def refusedId (env : Env) (data : Json) (missing : String) : Option String :=
  match env.rtc.getBoolFromJsonObject data "result" with
  | none => some missing
  | some result =>
    match env.rtc.getStringFromJsonObject data "name" with
    | none => some missing
    | some peerId => if result then none else some peerId

/-- The ids a command reports as closed. -/
def commandCloses (env : Env) (w : World) (c : ℕ) (command peerId : String) (data : Json) :
    List String :=
  if command = "channelcreate" then (refusedId env data (w.controls c).peerName).toList
  else if command = "channeljoin" then (refusedId env data "").toList
  else if command = "peerclosed" then
    if ((w.controls c).peers.find? peerId).isSome then [peerId] else []
  else (planned env w.nextInst command peerId data).2.toList

/-- The ids a message reports as closed. -/
def closedIds (env : Env) (w : World) (m : Message) : List String :=
  let k := w.controls m.handler
  match m.messageId with
  | .commandReceived =>
    match parseCommand env m.data.dataJson with
    | none => []
    | some (command, peerId, data) => commandCloses env w m.handler command peerId data
  | .closePeer => if (k.peers.find? m.data.dataString).isSome then [m.data.dataString] else []
  | .onPeerClose => [m.data.dataString]
  | _ => k.peerName :: k.peers.entries.map Prod.fst

/-! ### Ticks -/

/-- What the ticks of a step may do: the events a control raises, the callbacks, the
commands received, the ids offers are made to, the origins of descriptions, and the
ids started. -/
structure Guard where
  raises : ℕ → Event → Prop
  report : World → ℕ → Callback → Prop
  receives : Json → Option ℕ → Prop
  offers : String → Prop
  origin : SdpType → String → Option ℕ → Prop
  /-- The control may start the ids, in this order. -/
  starts : World → ℕ → List String → Prop
  starts_register : ∀ {w c id ids p}, p.remoteId = id → starts w c (id :: ids) →
    starts (w.register c p) c ids

/-- The guard that excludes nothing. -/
def Guard.free : Guard where
  raises _ _ := True
  report _ _ _ := True
  receives _ _ := True
  offers _ := True
  origin _ _ _ := True
  starts _ _ _ := True
  starts_register _ _ := trivial

/-- An object made by one of the two handlers that start a negotiation. -/
inductive NewPeer (env : Env) (G : Guard) (w : World) (c : ℕ) : PeerControl → Prop where
  | offer (remoteId : String) (ok : (env.initOutcome w.nextInst).ok = true)
      (asked : G.offers remoteId) :
      NewPeer env G w c (newPeer env c remoteId w).1.createOffer
  | answer (remoteId sdp : String) (origin : Option ℕ) (ok : (env.initOutcome w.nextInst).ok = true)
      (from_ : G.origin .offer remoteId origin) :
      NewPeer env G w c ((newPeer env c remoteId w).1.receiveOfferSdp sdp origin)

/-- The object with the effects of its operation added to its log. -/
def logged (r : PeerControl × List Effect) : PeerControl := { r.1 with log := r.1.log ++ r.2 }

/-- Instance `x` is performing one of the given effects. -/
def performing (x : ℕ) (fs : List Effect) (y : ℕ) (f : Effect) : Prop := y = x ∧ f ∈ fs

/-- The world with a new instance that nothing refers to yet. -/
def newInst (p : PeerControl) (w : World) : World :=
  { w.setInst w.nextInst p with nextInst := w.nextInst + 1 }

/-- The effects of closing instance `x` after it was erased. -/
def removeEffects (env : Env) (x : ℕ) (code : CloseCode) (w : World) : List Effect :=
  .removed :: ((w.insts x).close code (env.onRelease x)).2

/-- The world in which control `c` has erased and closed instance `x`, before the
effects of this are performed. -/
def removePeer (env : Env) (c : ℕ) (k : String) (x : ℕ) (code : CloseCode) (w : World) : World :=
  (w.modifyControl c fun q => { q with peers := q.peers.erase k }).setInst x
    (logged (((w.insts x).close code (env.onRelease x)).1, removeEffects env x code w))

/-- One change of the world. -/
inductive Tick (env : Env) (G : Guard) : World → World → Prop where
  | call {w w' : World} (h : Call env G.raises nobody w w') : Tick env G w w'
  | dequeued (w : World) (m : Message) (queue : List Message) (h : w.queue = m :: queue) :
      Tick env G w { w with queue := queue }
  | received (w : World) (c : ℕ) (message : Json) (origin : Option ℕ)
      (thread : (w.controls c).thread = true) (ok : G.receives message origin) :
      Tick env G w { w with queue := w.queue ++ [⟨c, .commandReceived,
        { dataJson := message, ref := (w.controls c).ref }, origin⟩] }
  | callback {w w' : World} (x : ℕ) (cb : Callback) (hx : x < w.nextInst)
      (alive : (w.insts x).released = false) (started : (w.insts x).Started)
      (report : G.report w x cb)
      (h : Calls env G.raises (performing x ((w.insts x).callback cb).2)
        (w.setInst x (logged ((w.insts x).callback cb))) w') : Tick env G w w'
  | answered (w : World) (c : ℕ) (k : String) (x : ℕ) (sdp : String) (origin : Option ℕ)
      (h : (w.controls c).peers.find? k = some x) (from_ : G.origin .answer k origin) :
      Tick env G w (w.setInst x (logged ((w.insts x).receiveAnswerSdp sdp origin)))
  | candidate (w : World) (c : ℕ) (k : String) (x : ℕ) (sdpMid : String) (sdpMlineIndex : Int)
      (candidate : String) (h : (w.controls c).peers.find? k = some x) :
      Tick env G w
        (w.setInst x (logged ((w.insts x).addIceCandidate sdpMid sdpMlineIndex candidate)))
  | closed {w w' : World} (c : ℕ) (k : String) (x : ℕ) (code : CloseCode)
      (h : (w.controls c).peers.find? k = some x)
      (calls : Calls env G.raises (performing x (removeEffects env x code w))
        (w.removePeer env c k x code) w') : Tick env G w w'
  | registered (w : World) (c : ℕ) (p : PeerControl) (ids : List String)
      (thread : (w.controls c).thread = true) (new : NewPeer env G w c p)
      (starts : G.starts w c (p.remoteId :: ids)) : Tick env G w (w.register c p)
  | rejected (w : World) (c : ℕ) (remoteId : String) (thread : (w.controls c).thread = true)
      (failed : (env.initOutcome w.nextInst).ok = false) :
      Tick env G w (w.newInst (newPeer env c remoteId w).1)

abbrev Ticks (env : Env) (G : Guard) : World → World → Prop := ReflTransGen (Tick env G)

/-! ### The basic invariant -/

/-- What holds of the object that control `c` stores under `k`. -/
structure Entry (p : PeerControl) (c : ℕ) (k : String) : Prop where
  control : p.control = c
  remoteId : p.remoteId = k
  held : p.released = false
  live : p.Live

/-- An object whose `Initialize` failed. -/
structure Rejected (p : PeerControl) : Prop where
  role : p.role = none
  pending : p.pending = none
  state : p.state = .closed

/-- What holds in the middle of a step as well as between steps. -/
structure Sound (env : Env) (w : World) : Prop where
  fresh : ∀ c, w.nextControl ≤ c → w.controls c = .unborn
  installed : ∀ c, w.control = some c → (w.controls c).observer = true ∧
    (w.controls c).ref = true ∧ (w.controls c).thread = true
  observed : ∀ c, (w.controls c).observer = true → (w.controls c).thread = true →
    w.control = some c
  named : ∀ c, (w.controls c).thread = true → (w.controls c).peerName = env.peerId
  queued : ∀ m ∈ w.queue, (w.controls m.handler).thread = true
  bound : ∀ c k x, (w.controls c).peers.find? k = some x → x < w.nextInst
  entries : ∀ c k x, (w.controls c).peers.find? k = some x → Entry (w.insts x) c k
  insts : ∀ x, x < w.nextInst → (w.insts x).Started ∨ Rejected (w.insts x)
  owners : ∀ x, x < w.nextInst → (w.controls (w.insts x).control).thread = true
  fault : ∀ f, w.fault = some f → f.Outside

theorem sound_init (env : Env) : Sound env init where
  fresh _ _ := rfl
  installed c h := by cases h
  observed c h := by cases h
  named c h := by cases h
  queued m h := by cases h
  bound c k x h := by simp [init, Control.unborn, OrderedMap.find?_empty] at h
  entries c k x h := by simp [init, Control.unborn, OrderedMap.find?_empty] at h
  insts x h := by cases h
  owners x h := by cases h
  fault f h := by cases h

theorem Sound.thread_lt {env : Env} {w : World} (hw : Sound env w) {c : ℕ}
    (hc : (w.controls c).thread = true) : c < w.nextControl := by
  by_contra hle
  rw [hw.fresh c (Nat.le_of_not_lt hle)] at hc
  cases hc

theorem Sound.channelsSet {env : Env} {w : World} (h : Sound env w) : ChannelsSet w :=
  fun c k x hx => (h.entries c k x hx).live.localChannel

/-- The parts of the invariant that a change of the controls and the queue can
affect; the registry and the instances are as before. -/
theorem Sound.of_same {env : Env} {w w' : World} (h : Sound env w) (hs : SameRegistry w w')
    (fresh : ∀ c, w'.nextControl ≤ c → w'.controls c = .unborn)
    (installed : ∀ c, w'.control = some c → (w'.controls c).observer = true ∧
      (w'.controls c).ref = true ∧ (w'.controls c).thread = true)
    (observed : ∀ c, (w'.controls c).observer = true → (w'.controls c).thread = true →
      w'.control = some c)
    (named : ∀ c, (w'.controls c).thread = true → (w'.controls c).peerName = env.peerId)
    (queued : ∀ m ∈ w'.queue, (w'.controls m.handler).thread = true)
    (threads : ∀ c, (w.controls c).thread = true → (w'.controls c).thread = true)
    (fault : ∀ f, w'.fault = some f → f.Outside) : Sound env w' where
  fresh := fresh
  installed := installed
  observed := observed
  named := named
  queued := queued
  bound c k x hx := hs.nextInst ▸ h.bound c k x (hs.peers c ▸ hx)
  entries c k x hx := by rw [hs.insts]; exact h.entries c k x (hs.peers c ▸ hx)
  insts x hx := by rw [hs.insts]; exact h.insts x (hs.nextInst ▸ hx)
  owners x hx := by rw [hs.insts]; exact threads _ (h.owners x (hs.nextInst ▸ hx))
  fault := fault

section

variable {env : Env} {src : ℕ → Effect → Prop} {w w' : World}

theorem Sound.post (h : Sound env w) {m : Message} (ht : (w.controls m.handler).thread = true) :
    Sound env { w with queue := w.queue ++ [m] } := by
  refine { h with queued := fun m' hm' => ?_ }
  rcases List.mem_append.mp hm' with hm' | hm'
  · exact h.queued m' hm'
  · rw [List.mem_singleton.mp hm']
    exact ht

/-- Installing a new control, with or without its thread. -/
theorem Sound.newControl (h : Sound env w) (free : w.control = none) (k : Control)
    (hp : k.peers = ∅) (hd : k.destroyed = false) (ho : k.observer = true) (hr : k.ref = true)
    (hn : k.thread = true → k.peerName = env.peerId) (s : Option Signal) :
    Sound env { w with
      signal := s
      nextControl := w.nextControl + 1
      control := if k.thread then some w.nextControl else none
      controls := Function.update w.controls w.nextControl k } := by
  have hu : w.controls w.nextControl = .unborn := h.fresh _ le_rfl
  have hthread : ∀ c, (w.controls c).thread = true → c ≠ w.nextControl := by
    rintro c hc rfl
    simp [hu, Control.unborn] at hc
  have hother : ∀ {c}, c ≠ w.nextControl →
      Function.update w.controls w.nextControl k c = w.controls c :=
    fun hc => Function.update_of_ne hc _ _
  refine h.of_same ⟨rfl, rfl, fun c => ?_, fun c => ?_⟩ ?_ ?_ ?_ ?_ ?_ ?_ h.fault
  · by_cases hc : c = w.nextControl
    · subst hc; simp [hu, hp, Control.unborn]
    · simp [hother hc]
  · by_cases hc : c = w.nextControl
    · subst hc; simp [hu, hd, Control.unborn]
    · simp [hother hc]
  · intro c hc
    simp only at hc
    exact (hother (by omega)).trans (h.fresh c (by omega))
  · intro c hc
    dsimp only at hc ⊢
    split_ifs at hc with ht
    · cases hc
      simp [ho, hr, ht]
  · intro c hco hct
    dsimp only at hco hct ⊢
    by_cases hc : c = w.nextControl
    · subst hc
      rw [Function.update_self] at hct
      rw [if_pos hct]
    · rw [hother hc] at hco hct
      rw [h.observed c hco hct] at free
      cases free
  · intro c hct
    dsimp only at hct ⊢
    by_cases hc : c = w.nextControl
    · subst hc
      rw [Function.update_self] at hct ⊢
      exact hn hct
    · rw [hother hc] at hct ⊢
      exact h.named c hct
  · intro m hm
    have ht := h.queued m hm
    simpa only [hother (hthread _ ht)] using ht
  · intro c ht
    simpa only [hother (hthread _ ht)] using ht

/-- Changing data of a control that the invariant does not read. -/
theorem Sound.modifyControl (h : Sound env w) (c : ℕ) (hc : (w.controls c).thread = true)
    {g : Control → Control} (hp : ∀ k, (g k).peers = k.peers)
    (hd : ∀ k, (g k).destroyed = k.destroyed) (ho : ∀ k, (g k).observer = k.observer)
    (hr : ∀ k, (g k).ref = k.ref) (ht : ∀ k, (g k).thread = k.thread)
    (hn : ∀ k, (g k).peerName = k.peerName) : Sound env (w.modifyControl c g) := by
  refine h.of_same (modifyControl_same c hp hd) ?_ ?_ ?_ ?_ ?_ ?_ h.fault
  · intro d hd
    have hdc : d ≠ c := by
      rintro rfl
      simp [h.fresh d hd, Control.unborn] at hc
    rw [modifyControl_controls, if_neg hdc]
    exact h.fresh d hd
  · intro d hd
    rw [modifyControl_keeps _ ho, modifyControl_keeps _ hr, modifyControl_keeps _ ht]
    exact h.installed d hd
  · intro d hdo hdt
    rw [modifyControl_keeps _ ho] at hdo
    rw [modifyControl_keeps _ ht] at hdt
    exact h.observed d hdo hdt
  · intro d hdt
    rw [modifyControl_keeps _ ht] at hdt
    rw [modifyControl_keeps _ hn]
    exact h.named d hdt
  · intro m hm
    rw [modifyControl_keeps _ ht]
    exact h.queued m hm
  · intro d hdt
    rw [modifyControl_keeps _ ht]
    exact hdt

/-- `UnregisterObserver` and `control_.reset()` on the installed control. -/
theorem Sound.dropped (h : Sound env w) {d : ℕ} (hd : w.control = some d) :
    Sound env { w.modifyControl d (fun k => { k with observer := false, ref := false }) with
      control := none } := by
  have same := modifyControl_same (w := w) d
    (g := fun k => { k with observer := false, ref := false }) (fun _ => rfl) (fun _ => rfl)
  have thread : ∀ c, ((w.modifyControl d fun k =>
      { k with observer := false, ref := false }).controls c).thread = (w.controls c).thread :=
    fun c => modifyControl_keeps (·.thread)
      (g := fun k => { k with observer := false, ref := false }) (fun _ => rfl) d c w
  refine h.of_same ⟨same.insts, same.nextInst, same.peers, same.destroyed⟩ ?_ ?_ ?_ ?_ ?_ ?_ h.fault
  · intro c hc
    have hcd : c ≠ d := by
      rintro rfl
      have := (h.installed c hd).1
      simp [h.fresh c hc, Control.unborn] at this
    simp only [modifyControl_controls, if_neg hcd]
    exact h.fresh c hc
  · intro c hc
    cases hc
  · intro c hco hct
    have hcd : c ≠ d := by
      rintro rfl
      simp [modifyControl_controls] at hco
    simp only [modifyControl_controls, if_neg hcd] at hco hct
    rw [h.observed c hco hct] at hd
    exact absurd (Option.some.inj hd) hcd
  · intro c hct
    have hn := modifyControl_keeps (·.peerName)
      (g := fun k => { k with observer := false, ref := false }) (fun _ => rfl) d c w
    exact hn.trans (h.named c (thread c ▸ hct))
  · intro m hm
    exact (thread m.handler).trans (h.queued m hm)
  · exact fun c hct => (thread c).trans hct

theorem Move.sound (h : Move env src w w') (hw : Sound env w) : Sound env w' := by
  cases h with
  | post m thread ref ok =>
    exact hw.post thread
  | signal s joins => exact { hw with }
  | command s sc ok => exact { hw with }
  | sent handed returned => exact { hw with }
  | crash f ok => exact { hw with fault := fun g hg => by cases hg; exact ok }
  | session c sessionId thread =>
    exact hw.modifyControl c thread (fun _ => rfl) (fun _ => rfl) (fun _ => rfl) (fun _ => rfl)
      (fun _ => rfl) (fun _ => rfl)
  | opened s free =>
    convert hw.newControl free { Control.unborn with
      observer := true, ref := true, thread := true, peerName := env.peerId, userId := env.signalId }
      rfl rfl rfl rfl (fun _ => rfl) s using 1
    simp only [modifyControl, newControl, Function.update_self, Function.update_idem,
      hw.fresh _ le_rfl, if_true]
  | failed s free =>
    convert hw.newControl free { Control.unborn with observer := true, ref := true }
      rfl rfl rfl rfl (fun h => by cases h) s using 1
    simp only [modifyControl, newControl, hw.fresh _ le_rfl]
    rfl

theorem EventMove.sound {c : ℕ} {source : Option ℕ} {e : Event} (h : EventMove env c source e w w')
    (hw : Sound env w) : Sound env w' := by
  cases h with
  | move h => exact h.sound hw
  | observer => exact { hw with }
  | handler => exact { hw with }
  | closed session he => exact { hw with }
  | closeOnce b he => exact { hw with }
  | dropped d hd he => exact hw.dropped hd

theorem Call.sound {raises : ℕ → Event → Prop} (h : Call env raises src w w') (hw : Sound env w) :
    Sound env w' := by
  cases h with
  | move h => exact h.sound hw
  | event c source e running set ok admits moves =>
    exact calls_invariant (fun h hw => h.sound hw) moves hw

theorem Calls.sound {raises : ℕ → Event → Prop} (h : Calls env raises src w w') (hw : Sound env w) :
    Sound env w' := calls_invariant (fun h hw => h.sound hw) h hw

/-! ### Ticks keep the invariant -/

@[simp] theorem setInst_controls (x : ℕ) (p : PeerControl) (w : World) :
    (w.setInst x p).controls = w.controls := rfl

@[simp] theorem setInst_insts_self (x : ℕ) (p : PeerControl) (w : World) :
    (w.setInst x p).insts x = p := by
  simp [setInst]

theorem setInst_insts_ne {x y : ℕ} (h : y ≠ x) (p : PeerControl) (w : World) :
    (w.setInst x p).insts y = w.insts y := by
  simp [setInst, h]

@[simp] theorem newInst_insts_self (p : PeerControl) (w : World) :
    (w.newInst p).insts w.nextInst = p :=
  setInst_insts_self w.nextInst p w

theorem newInst_insts_lt {x : ℕ} {w : World} (h : x < w.nextInst) {p : PeerControl} :
    (w.newInst p).insts x = w.insts x :=
  setInst_insts_ne (by omega) p w

theorem erase_find? (c : ℕ) (k : String) (w : World) (d : ℕ) (k' : String) :
    (((w.modifyControl c fun q => { q with peers := q.peers.erase k }).controls d).peers.find? k') =
      if d = c ∧ k' = k then none else (w.controls d).peers.find? k' := by
  rw [modifyControl_controls]
  by_cases hd : d = c
  · subst hd
    simp [OrderedMap.find?_erase]
  · simp [hd]

theorem removePeer_find? (env : Env) (c : ℕ) (k : String) (x : ℕ) (code : CloseCode) (w : World)
    (d : ℕ) (k' : String) : ((w.removePeer env c k x code).controls d).peers.find? k' =
      if d = c ∧ k' = k then none else (w.controls d).peers.find? k' :=
  erase_find? c k w d k'

/-- A projection that does not read `peers_`. -/
theorem register_keeps {α : Type*} (f : Control → α)
    (hf : ∀ (q : Control) m, f { q with peers := m } = f q) (c : ℕ) (p : PeerControl) (w : World)
    (d : ℕ) : f ((w.register c p).controls d) = f (w.controls d) :=
  modifyControl_keeps f (fun q => hf q (q.peers.insert p.remoteId w.nextInst)) c d (w.newInst p)

theorem register_insts (c : ℕ) (p : PeerControl) (w : World) :
    (w.register c p).insts = (w.newInst p).insts := rfl

theorem register_find? (c : ℕ) (p : PeerControl) (w : World) (d : ℕ) (k : String) :
    ((w.register c p).controls d).peers.find? k =
      if d = c ∧ k = p.remoteId then some (((w.controls c).peers.find? k).getD w.nextInst)
      else (w.controls d).peers.find? k := by
  simp only [register, modifyControl_controls]
  by_cases hd : d = c
  · subst hd
    by_cases hk : k = p.remoteId
    · subst hk; simp [OrderedMap.find?_insert]
    · simp [OrderedMap.find?_insert, hk]
  · simp [hd]

/-- An object right after its negotiation was started by control `c`. -/
structure Begun (p : PeerControl) (c : ℕ) : Prop extends p.Live where
  control : p.control = c
  connecting : p.state = .connecting
  waiting : p.pending = p.role
  unreleased : p.released = false
  unmet : p.met = false
  log : p.log = []
  localData : p.localDataChannel = some (.observe .connecting 0)
  remoteData : p.remoteDataChannel = none

theorem newPeer_ok {c : ℕ} {remoteId : String} (ok : (env.initOutcome w.nextInst).ok = true) :
    newPeer env c remoteId w = ({ PeerControl.new c (w.controls c).peerName remoteId with
      peerConnection := true, localDataChannel := some (.observe .connecting 0) }, true) := by
  simp only [InitOutcome.ok, Bool.and_eq_true] at ok
  simp [newPeer, PeerControl.initializePeer, ok.1, ok.2]

theorem newPeer_failed {c : ℕ} {remoteId : String}
    (failed : (env.initOutcome w.nextInst).ok = false) :
    newPeer env c remoteId w = (PeerControl.new c (w.controls c).peerName remoteId, false) := by
  simp only [InitOutcome.ok, Bool.and_eq_false_iff] at failed
  unfold newPeer PeerControl.initializePeer
  by_cases hp : (env.initOutcome w.nextInst).createPeerConnection = true
  · have hd := failed.resolve_left (by simp [hp])
    simp only [hp, hd, if_true]
    rfl
  · simp only [hp]
    rfl

theorem NewPeer.begun {G : Guard} {c : ℕ} {p : PeerControl} (h : NewPeer env G w c p) :
    Begun p c := by
  cases h with
  | offer remoteId ok asked =>
    rw [newPeer_ok ok]
    exact ⟨⟨⟨rfl, rfl, fun t ht => ht⟩, Or.inl rfl, rfl⟩, rfl, rfl, rfl, rfl, rfl, rfl, rfl, rfl⟩
  | answer remoteId sdp origin ok from_ =>
    rw [newPeer_ok ok]
    exact ⟨⟨⟨rfl, rfl, fun t ht => ht⟩, Or.inl rfl, rfl⟩, rfl, rfl, rfl, rfl, rfl, rfl, rfl, rfl⟩

/-- Changing an instance without changing what it is. -/
theorem Sound.setInst (h : Sound env w) {x : ℕ} {q : PeerControl}
    (hc : q.control = (w.insts x).control) (hr : q.remoteId = (w.insts x).remoteId)
    (hh : q.released = (w.insts x).released)
    (hs : (w.insts x).Started → q.Started) (hj : Rejected (w.insts x) → Rejected q)
    (hl : ∀ c k, (w.controls c).peers.find? k = some x → q.Live) : Sound env (w.setInst x q) := by
  refine { h with entries := ?_, insts := ?_, owners := ?_ }
  · intro c k y hy
    have he := h.entries c k y hy
    by_cases hyx : y = x
    · subst hyx
      rw [setInst_insts_self]
      exact ⟨hc.trans he.control, hr.trans he.remoteId, hh.trans he.held, hl c k hy⟩
    · rw [setInst_insts_ne hyx]
      exact he
  · intro y hy
    by_cases hyx : y = x
    · subst hyx
      rw [setInst_insts_self]
      exact (h.insts y hy).imp hs hj
    · rw [setInst_insts_ne hyx]
      exact h.insts y hy
  · intro y hy
    by_cases hyx : y = x
    · subst hyx
      rw [setInst_insts_self, hc]
      exact h.owners y hy
    · rw [setInst_insts_ne hyx]
      exact h.owners y hy

theorem Sound.erase (h : Sound env w) (c : ℕ) (k : String) :
    Sound env (w.modifyControl c fun q => { q with peers := q.peers.erase k }) := by
  have keep {α : Type} (f : Control → α) (hf : ∀ q : Control, ∀ m, f { q with peers := m } = f q)
      (d : ℕ) := modifyControl_keeps f (fun q => hf q (q.peers.erase k)) c d w
  have sub : ∀ {d k' x}, ((w.modifyControl c fun q =>
      { q with peers := q.peers.erase k }).controls d).peers.find? k' = some x →
      (w.controls d).peers.find? k' = some x := by
    intro d k' x hx
    rw [erase_find?] at hx
    split_ifs at hx
    exact hx
  have hthread := keep (·.thread) (fun _ _ => rfl)
  refine { h with fresh := ?_, installed := ?_, observed := ?_, named := ?_, queued := ?_
                  bound := ?_, entries := ?_, owners := ?_ }
  · intro d hd
    rw [modifyControl_controls]
    split_ifs with hdc
    · subst hdc
      rw [h.fresh d hd]
      rfl
    · exact h.fresh d hd
  · intro d hd
    rw [keep (·.observer) (fun _ _ => rfl), keep (·.ref) (fun _ _ => rfl), hthread]
    exact h.installed d hd
  · intro d hdo hdt
    rw [keep (·.observer) (fun _ _ => rfl)] at hdo
    exact h.observed d hdo (hthread d ▸ hdt)
  · intro d hdt
    rw [keep (·.peerName) (fun _ _ => rfl)]
    exact h.named d (hthread d ▸ hdt)
  · exact fun m hm => (hthread _).trans (h.queued m hm)
  · exact fun d k' x hx => h.bound d k' x (sub hx)
  · exact fun d k' x hx => h.entries d k' x (sub hx)
  · exact fun x hx => (hthread _).trans (h.owners x hx)

theorem Sound.newInst (h : Sound env w) {p : PeerControl} (hp : p.Started ∨ Rejected p)
    (ht : (w.controls p.control).thread = true) : Sound env (w.newInst p) := by
  refine { h with bound := ?_, entries := ?_, insts := ?_, owners := ?_ }
  · intro c k x hx
    exact Nat.lt_succ_of_lt (h.bound c k x hx)
  · intro c k x hx
    rw [newInst_insts_lt (h.bound c k x hx)]
    exact h.entries c k x hx
  · intro x hx
    rcases Nat.lt_succ_iff_lt_or_eq.mp hx with hx | rfl
    · rw [newInst_insts_lt hx]
      exact h.insts x hx
    · rw [newInst_insts_self]
      exact hp
  · intro x hx
    rcases Nat.lt_succ_iff_lt_or_eq.mp hx with hx | rfl
    · rw [newInst_insts_lt hx]
      exact h.owners x hx
    · rw [newInst_insts_self]
      exact ht

theorem Sound.register (h : Sound env w) {c : ℕ} {p : PeerControl}
    (ht : (w.controls c).thread = true) (hp : Begun p c) : Sound env (w.register c p) := by
  have hnew := h.newInst (Or.inl hp.toStarted) (hp.control ▸ ht)
  have keep {α : Type} (f : Control → α) (hf : ∀ q : Control, ∀ m, f { q with peers := m } = f q) :=
    register_keeps f hf c p w
  have hthread := keep (·.thread) (fun _ _ => rfl)
  -- an entry is an old one or the new one
  have cases_ : ∀ {d k x}, ((w.register c p).controls d).peers.find? k = some x →
      (w.controls d).peers.find? k = some x ∨ (d = c ∧ k = p.remoteId ∧ x = w.nextInst) := by
    intro d k x hx
    rw [register_find?] at hx
    split_ifs at hx with hdk
    · obtain ⟨rfl, rfl⟩ := hdk
      cases hf : (w.controls d).peers.find? p.remoteId with
      | none => rw [hf] at hx; exact Or.inr ⟨rfl, rfl, (Option.some.inj hx).symm⟩
      | some y => rw [hf] at hx; exact Or.inl hx
    · exact Or.inl hx
  refine { hnew with
    fresh := ?_, installed := ?_, observed := ?_, named := ?_, queued := ?_
    bound := ?_, entries := ?_, owners := ?_ }
  · intro d hd
    have hdc : d ≠ c := by
      rintro rfl
      simp [h.fresh d hd, Control.unborn] at ht
    simp only [World.register, modifyControl_controls, if_neg hdc]
    exact h.fresh d hd
  · intro d hd
    rw [keep (·.observer) (fun _ _ => rfl), keep (·.ref) (fun _ _ => rfl), hthread]
    exact h.installed d hd
  · intro d hdo hdt
    rw [keep (·.observer) (fun _ _ => rfl)] at hdo
    exact h.observed d hdo (hthread d ▸ hdt)
  · intro d hdt
    rw [keep (·.peerName) (fun _ _ => rfl)]
    exact h.named d (hthread d ▸ hdt)
  · exact fun m hm => (hthread _).trans (h.queued m hm)
  · intro d k x hx
    rcases cases_ hx with hx | ⟨-, -, rfl⟩
    · exact Nat.lt_succ_of_lt (h.bound d k x hx)
    · exact Nat.lt_succ_self _
  · intro d k x hx
    rcases cases_ hx with hx | ⟨rfl, rfl, rfl⟩
    · exact hnew.entries d k x hx
    · rw [register_insts, newInst_insts_self]
      exact ⟨hp.control, rfl, hp.unreleased, hp.toLive⟩
  · exact fun x hx => (hthread _).trans (hnew.owners x hx)

theorem Sound.reject (h : Sound env w) {c : ℕ} (remoteId : String)
    (ht : (w.controls c).thread = true) (failed : (env.initOutcome w.nextInst).ok = false) :
    Sound env (w.newInst (newPeer env c remoteId w).1) := by
  rw [newPeer_failed failed]
  exact h.newInst (Or.inr ⟨rfl, rfl, rfl⟩) ht

theorem Sound.callback (hw : Sound env w) {x : ℕ} (started : (w.insts x).Started) (cb : Callback) :
    Sound env (w.setInst x (logged ((w.insts x).callback cb))) := by
  have hk := PeerControl.callback_keeps (w.insts x) cb
  refine hw.setInst hk.control hk.remoteId hk.released (fun hs => ?_) (fun hj => ?_) fun c k hx => ?_
  · obtain ⟨h1, h2, h3⟩ := hs.keeps hk
    exact ⟨h1, h2, h3⟩
  · have := started.role
    simp [hj.role] at this
  · obtain ⟨⟨h1, h2, h3⟩, h4, h5⟩ := (hw.entries c k x hx).live.keeps hk
    exact ⟨⟨h1, h2, h3⟩, h4, h5⟩

theorem Sound.removePeer (hw : Sound env w) {c : ℕ} {k : String} {x : ℕ}
    (h : (w.controls c).peers.find? k = some x) (code : CloseCode) :
    Sound env (w.removePeer env c k x code) := by
  have hl := hw.entries c k x h
  have hs := hl.live.close_same code (env.onRelease x)
  obtain ⟨h1, h2, h3⟩ := hl.live.close_started code (env.onRelease x)
  refine (hw.erase c k).setInst hs.control hs.remoteId hs.released (fun _ => ⟨h1, h2, h3⟩)
    (fun hj => ?_) fun d k' hx => ?_
  · have := hl.live.role
    rw [modifyControl_insts] at hj
    simp [hj.role] at this
  · -- the object is registered once only, and that entry is gone
    rw [erase_find?] at hx
    split_ifs at hx with hdk
    have hd := hw.entries d k' x hx
    exact absurd ⟨hd.control.symm.trans hl.control, hd.remoteId.symm.trans hl.remoteId⟩ hdk

theorem Tick.sound {G : Guard} (h : Tick env G w w') (hw : Sound env w) : Sound env w' := by
  cases h with
  | call h => exact h.sound hw
  | dequeued m queue h =>
    exact { hw with queued := fun m' hm' => hw.queued m' (h ▸ List.mem_cons_of_mem m hm') }
  | received c message origin thread ok => exact hw.post thread
  | callback x cb hx alive started report h => exact h.sound (hw.callback started cb)
  | answered c k x sdp origin h from_ =>
    have hl := (hw.entries c k x h).live
    rw [hl.receiveAnswerSdp_eq]
    refine hw.setInst rfl rfl rfl (fun hs => ⟨hs.role, hs.localChannel, hs.pending⟩) (fun hj => ?_)
      (fun _ _ _ => ⟨⟨hl.role, hl.localChannel, hl.pending⟩, hl.state, hl.peerConnection⟩)
    exact ⟨hj.role, hj.pending, hj.state⟩
  | candidate c k x sdpMid sdpMlineIndex candidate h =>
    have hl := (hw.entries c k x h).live
    rw [hl.addIceCandidate_eq]
    refine hw.setInst rfl rfl rfl (fun hs => ⟨hs.role, hs.localChannel, hs.pending⟩) (fun hj => ?_)
      (fun _ _ _ => ⟨⟨hl.role, hl.localChannel, hl.pending⟩, hl.state, hl.peerConnection⟩)
    exact ⟨hj.role, hj.pending, hj.state⟩
  | closed c k x code h calls => exact calls.sound (hw.removePeer h code)
  | registered c p ids thread new starts => exact hw.register thread new.begun
  | rejected c remoteId thread failed => exact hw.reject remoteId thread failed

/-! ### Threads and observers -/

/-- A control keeps its thread and never gets an observer back; objects are only
added, and a crash stays. -/
structure Grows (w w' : World) : Prop where
  controls : w.nextControl ≤ w'.nextControl
  threads : ∀ c, (w.controls c).thread = true → (w'.controls c).thread = true
  observers : ∀ c, c < w.nextControl → (w.controls c).observer = false →
    (w'.controls c).observer = false
  destroyed : ∀ c, (w'.controls c).destroyed = (w.controls c).destroyed
  insts : w.nextInst ≤ w'.nextInst
  fault : w.fault ≠ none → w'.fault ≠ none

theorem Grows.of_controls (h : w'.controls = w.controls) (hn : w'.nextControl = w.nextControl)
    (hi : w.nextInst ≤ w'.nextInst) (hf : w.fault ≠ none → w'.fault ≠ none) : Grows w w' where
  controls := hn.ge
  threads c hc := by rwa [h]
  observers c _ hc := by rwa [h]
  destroyed c := by rw [h]
  insts := hi
  fault := hf

theorem Grows.refl (w : World) : Grows w w := .of_controls rfl rfl le_rfl id

theorem Grows.trans {w w' w'' : World} (h : Grows w w') (h' : Grows w' w'') : Grows w w'' :=
  ⟨h.controls.trans h'.controls, fun c hc => h'.threads c (h.threads c hc),
    fun c hc ho => h'.observers c (hc.trans_le h.controls) (h.observers c hc ho),
    fun c => (h'.destroyed c).trans (h.destroyed c), h.insts.trans h'.insts,
    fun hf => h'.fault (h.fault hf)⟩

theorem Grows.of_steps {r : World → World → Prop} (hr : ∀ {w w'}, r w w' → Grows w w')
    (h : ReflTransGen r w w') : Grows w w' := by
  induction h with
  | refl => exact Grows.refl w
  | tail _ hm ih => exact ih.trans (hr hm)

theorem modifyControl_grows (c : ℕ) {g : Control → Control}
    (ht : ∀ k, k.thread = true → (g k).thread = true)
    (ho : ∀ k, k.observer = false → (g k).observer = false)
    (hd : ∀ k, (g k).destroyed = k.destroyed) : Grows w (w.modifyControl c g) := by
  refine ⟨le_rfl, fun d hd => ?_, fun d _ hd => ?_,
    fun d => modifyControl_keeps (·.destroyed) hd c d w, le_rfl, id⟩
  · rw [modifyControl_controls]
    split_ifs with h
    · exact ht _ (h ▸ hd)
    · exact hd
  · rw [modifyControl_controls]
    split_ifs with h
    · exact ho _ (h ▸ hd)
    · exact hd

theorem setInst_grows (x : ℕ) (p : PeerControl) (w : World) : Grows w (w.setInst x p) :=
  .of_controls rfl rfl le_rfl id

theorem removePeer_grows (env : Env) (c : ℕ) (k : String) (x : ℕ) (code : CloseCode) (w : World) :
    Grows w (w.removePeer env c k x code) := by
  have he : Grows w (w.modifyControl c fun q => { q with peers := q.peers.erase k }) :=
    modifyControl_grows c (fun _ h => h) (fun _ h => h) (fun _ => rfl)
  exact he.trans (setInst_grows x _ _)

theorem newControl_grows (w : World) (s : Option Signal) :
    Grows w (World.newControl { w with signal := s }) := by
  refine ⟨Nat.le_succ _, fun d hd => ?_, fun d hlt hd => ?_, (newControl_same w s).destroyed,
    le_rfl, id⟩
  · simp only [World.newControl, modifyControl_controls]
    split_ifs with h
    · exact h ▸ hd
    · exact hd
  · simp only [World.newControl, modifyControl_controls, if_neg (Nat.ne_of_lt hlt)]
    exact hd

theorem Move.grows (h : Move env src w w') : Grows w w' := by
  cases h with
  | session c sessionId thread =>
    exact modifyControl_grows c (fun _ h => h) (fun _ h => h) (fun _ => rfl)
  | opened s free =>
    exact (newControl_grows w s).trans
      (modifyControl_grows w.nextControl (fun _ _ => rfl) (fun _ h => h) (fun _ => rfl))
  | failed s free =>
    obtain ⟨h1, h2, h3, h4, h5, h6⟩ := newControl_grows w s
    exact ⟨h1, h2, h3, h4, h5, h6⟩
  | crash f ok => exact .of_controls rfl rfl le_rfl fun _ => Option.some_ne_none f
  | _ => exact .of_controls rfl rfl le_rfl id

theorem EventMove.grows {c : ℕ} {source : Option ℕ} {e : Event} (h : EventMove env c source e w w') :
    Grows w w' := by
  cases h with
  | move h => exact h.grows
  | dropped d hd he =>
    obtain ⟨h1, h2, h3, h4, h5, h6⟩ := modifyControl_grows (w := w) d
      (g := fun k => { k with observer := false, ref := false }) (fun _ h => h) (fun _ _ => rfl)
      (fun _ => rfl)
    exact ⟨h1, h2, h3, h4, h5, h6⟩
  | _ => exact .of_controls rfl rfl le_rfl id

theorem Call.grows {raises : ℕ → Event → Prop} (h : Call env raises src w w') : Grows w w' := by
  cases h with
  | move h => exact h.grows
  | event c source e running set ok admits moves => exact .of_steps EventMove.grows moves

theorem Calls.grows {raises : ℕ → Event → Prop} (h : Calls env raises src w w') : Grows w w' :=
  .of_steps Call.grows h

theorem Tick.grows {G : Guard} (h : Tick env G w w') : Grows w w' := by
  cases h with
  | call h => exact h.grows
  | dequeued m queue h => exact .of_controls rfl rfl le_rfl id
  | received c message origin thread ok => exact .of_controls rfl rfl le_rfl id
  | callback x cb hx alive started report h => exact (setInst_grows x _ w).trans h.grows
  | answered c k x sdp origin h from_ => exact setInst_grows x _ w
  | candidate c k x sdpMid sdpMlineIndex candidate h => exact setInst_grows x _ w
  | closed c k x code h calls => exact (removePeer_grows env c k x code w).trans calls.grows
  | registered c p ids thread new starts =>
    refine ⟨le_rfl, fun d hd => ?_, fun d _ hd => ?_,
      register_keeps (·.destroyed) (fun _ _ => rfl) c p w, Nat.le_succ _, id⟩
    · rw [register_keeps (·.thread) fun _ _ => rfl]
      exact hd
    · rw [register_keeps (·.observer) fun _ _ => rfl]
      exact hd
  | rejected c remoteId thread failed => exact .of_controls rfl rfl (Nat.le_succ _) id

theorem Ticks.grows {G : Guard} (h : Ticks env G w w') : Grows w w' := .of_steps Tick.grows h

/-- A call of the observer is of a control that had one, for what it may raise. -/
def Obs.Raised (raises : ℕ → Event → Prop) (w : World) (o : Obs) : Prop :=
  ∀ d s e, o = .observer d s e → raises d e ∧ (d < w.nextControl → (w.controls d).observer = true)

theorem Calls.raised {raises : ℕ → Event → Prop} {w₀ : World} (hg : Grows w₀ w)
    (h : Calls env raises src w w') : Observes (Obs.Raised raises w₀) w w' := by
  refine .of_steps_within (I := Grows w₀) (fun hg h => hg.trans h.grows) (fun hg h => ?_) h hg
  cases h with
  | move h => exact .of_eq h.obs
  | event c source e running set ok admits moves =>
    refine (Appends.of_steps EventMove.raised moves).mono fun o ho d s e' he => ?_
    obtain ⟨rfl, rfl⟩ := ho d s e' he
    refine ⟨admits, fun hd => ?_⟩
    by_contra hn
    rw [hg.observers d hd (by simpa using hn)] at set
    cases set

/-- The observer is called only for what the guard lets the controls raise. -/
theorem Ticks.raised {G : Guard} (h : Ticks env G w w') :
    Observes (Obs.Raised G.raises w) w w' := by
  refine .of_steps_within (I := Grows w) (fun hg h => hg.trans h.grows) (fun {w₁ w₂} hg h => ?_) h
    (.refl w)
  have calls {w₃ : World} {src : ℕ → Effect → Prop} (hg : Grows w w₃)
      (h : Calls env G.raises src w₃ w₂) (hobs : w₃.obs = w₁.obs) :
      Observes (Obs.Raised G.raises w) w₁ w₂ := by
    obtain ⟨os, hos, ho⟩ := h.raised hg
    exact ⟨os, hos.trans (by rw [hobs]), ho⟩
  cases h with
  | call h => exact calls hg (.single h) rfl
  | callback x cb hx alive started report h => exact calls (hg.trans (setInst_grows _ _ _)) h rfl
  | closed c k x code h h' => exact calls (hg.trans (removePeer_grows _ _ _ _ _ _)) h' rfl
  | _ => exact .of_eq rfl

theorem Ticks.sound {G : Guard} (h : Ticks env G w w') (hw : Sound env w) : Sound env w' :=
  calls_invariant (fun h hw => h.sound hw) h hw

theorem Calls.ticks {G : Guard} (h : Calls env G.raises nobody w w') : Ticks env G w w' :=
  h.lift id fun _ _ hc => Tick.call hc

end

end PeerApi.World
