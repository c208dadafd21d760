import PeerApi.Session.FailedOpen

/-! What the life of the controls depends on. Whatever a step does, it posts messages to
controls that stand, crashes for one of a few reasons, changes the registry of a control
that stands, makes a control or drops the installed one; the rest leaves the controls
and the queue alone. A property that survives each of these survives every call of the
interface, every handler of `Control` and every callback.

Two crashes depend on what the step is about and are left to the caller: a call through
an observer that is not set, and a call on a control that is destroyed. -/

namespace PeerApi.World

open Base Relation

/-- Controls, queue and fault are the same, except for the session ids. -/
structure SameLives (w w' : World) : Prop where
  fault : w'.fault = w.fault
  control : w'.control = w.control
  nextControl : w'.nextControl = w.nextControl
  queue : w'.queue = w.queue
  controls : ∀ c, { w'.controls c with sessionId := "" } = { w.controls c with sessionId := "" }

theorem SameLives.of_eq {w w' : World} (hf : w'.fault = w.fault) (hc : w'.control = w.control)
    (hn : w'.nextControl = w.nextControl) (hq : w'.queue = w.queue)
    (hk : w'.controls = w.controls) : SameLives w w' :=
  ⟨hf, hc, hn, hq, fun _ => by rw [hk]⟩

/-- The crash does not hurt the property. -/
def Tolerates (P : World → Prop) (f : Fault) : Prop := ∀ {w : World}, P w → P (w.crash f)

structure Upholds (env : Env) (P : World → Prop) : Prop where
  same : ∀ {w w' : World}, P w → SameLives w w' → P w'
  peers : ∀ {w : World} {c : ℕ} (g : OrderedMap String ℕ → OrderedMap String ℕ), P w →
    (w.controls c).destroyed = false →
    P (w.modifyControl c fun k => { k with peers := g k.peers })
  /-- A message is posted to a control that stands, or to the installed one. -/
  post : ∀ {w : World} (m : Message), P w → (w.controls m.handler).thread = true →
    (w.controls m.handler).destroyed = false ∨ w.control = some m.handler →
    m.data.ref = (w.controls m.handler).ref → P { w with queue := w.queue ++ [m] }
  deadlock : Tolerates P .deadlock
  nullControl : Tolerates P .nullControl
  nullSignal : Tolerates P .nullSignal
  /-- A control without a thread is connected to the signals. -/
  noThread : ∀ {w : World} {c : ℕ}, P w → c ∈ w.subscribed → (w.controls c).thread = false →
    P (w.crash .noThread)
  opened : ∀ {w : World} (s : Option Signal), P w → Sound env w → w.control = none →
    env.createPeerFactory w.nextControl = true →
    P ((newControl { w with signal := s }).modifyControl w.nextControl fun k =>
      { k with thread := true, peerName := env.peerId, userId := env.signalId })
  failed : ∀ {w : World} (s : Option Signal), P w → Sound env w → w.control = none →
    env.createPeerFactory w.nextControl = false →
    P { newControl { w with signal := s } with control := none }
  dropped : ∀ {w : World} {d : ℕ}, P w → w.control = some d →
    P { w.modifyControl d fun k => { k with observer := false, ref := false } with
      control := none }

variable {env : Env} {P : World → Prop} {w : World} {c : ℕ}

/-- Objects, logs and the signal connection may change. -/
theorem Upholds.keeps (hP : Upholds env P) (h : P w) (w' : World) (hf : w'.fault = w.fault)
    (hc : w'.control = w.control) (hn : w'.nextControl = w.nextControl)
    (hq : w'.queue = w.queue) (hk : w'.controls = w.controls) : P w' :=
  hP.same h (.of_eq hf hc hn hq hk)

/-! ### The signal connection -/

/-- A signal of the connection posts to the controls connected to it, which stay the
same while it does. -/
theorem Upholds.posts (hP : Upholds env P) (h : P w) (id : MessageId) (data : MessageData)
    (origin : Option ℕ) {cs : List ℕ} (hcs : ∀ c ∈ cs, c ∈ w.subscribed) :
    P (cs.foldl (fun w c => w.post c id data origin) w) := by
  induction cs generalizing w with
  | nil => exact h
  | cons c cs ih =>
    have hc := hcs c List.mem_cons_self
    have hrest : ∀ d ∈ cs, d ∈ w.subscribed := fun d hd => hcs d (List.mem_cons_of_mem c hd)
    rw [List.foldl_cons]
    unfold World.post
    split_ifs with ht
    · exact ih (hP.post _ h ht (Or.inl (mem_subscribed.mp hc).2) rfl) hrest
    · exact ih (hP.noThread h hc (by simpa using ht)) hrest

theorem Upholds.signalOnCommandReceived (hP : Upholds env P) (h : P w) (message : Json)
    (origin : Option ℕ) : P (w.signalOnCommandReceived message origin) :=
  hP.posts h .commandReceived { dataJson := message } origin fun _ hc => hc

theorem Upholds.signalOnClosed (hP : Upholds env P) (h : P w) (code : CloseStatus) :
    P (w.signalOnClosed code) := by
  by_cases hcode : code = .normal
  · have hid : w.signalOnClosed code = w := by
      unfold World.signalOnClosed
      refine List.foldlRecOn (motive := fun w' => w' = w) w.subscribed _ rfl fun w' hw' c _ => ?_
      simp [onSignalConnectionClosed, hcode, hw']
    rwa [hid]
  · have hf : onSignalConnectionClosed code = fun w c =>
        w.post c .onSignalConnectionClose { dataInt32 := some .signalError } none := by
      funext w c
      simp [onSignalConnectionClosed, hcode]
    unfold World.signalOnClosed
    rw [hf]
    exact hP.posts h _ _ _ fun _ hc => hc

theorem Upholds.net (hP : Upholds env P) (h : P w) (a : Signal.NetAction) : P (w.net a) := by
  unfold World.net
  cases w.signal with
  | none => exact h
  | some s =>
    exact List.foldlRecOn (s.net a).2 _ (hP.keeps h _ rfl rfl rfl rfl rfl)
      fun w h code _ => hP.signalOnClosed h code

theorem Upholds.join (hP : Upholds env P) (h : P w) : P (w.join env) := by
  have hnet : P ((env.join w.joins).foldl World.net { w with joins := w.joins + 1 }) :=
    List.foldlRecOn _ _ (hP.keeps h _ rfl rfl rfl rfl rfl) fun w h a _ => hP.net h a
  unfold World.join
  generalize (env.join w.joins).foldl World.net { w with joins := w.joins + 1 } = w₁ at hnet ⊢
  dsimp only
  cases w₁.signal with
  | none => exact hnet
  | some s =>
    dsimp only
    split_ifs
    · exact hP.deadlock hnet
    · exact hP.keeps hnet _ rfl rfl rfl rfl rfl

theorem Upholds.signalCall (hP : Upholds env P) (h : P w) (f : Signal → Signal) :
    P (w.signalCall env f) := by
  unfold World.signalCall
  cases w.signal with
  | none => exact h
  | some s =>
    have h' : P { w with signal := some (f s) } := hP.keeps h _ rfl rfl rfl rfl rfl
    dsimp only
    split_ifs
    · exact hP.join h'
    · exact h'

theorem Upholds.signalSyncClose (hP : Upholds env P) (h : P w) : P (w.signalSyncClose env) := by
  unfold World.signalSyncClose
  cases w.signal with
  | none => exact hP.nullSignal h
  | some s => exact hP.signalCall h _

theorem Upholds.sendCommand (hP : Upholds env P) (h : P w) (source : Option ℕ)
    (channel command : String) (data : Json) : P (w.sendCommand source channel command data) := by
  unfold World.sendCommand
  cases w.signal with
  | none => exact h
  | some s => exact hP.keeps h _ rfl rfl rfl rfl rfl

/-! ### The public interface -/

/-- A message to a control that has its thread. -/
theorem Upholds.postTo (hP : Upholds env P) (h : P w) (ht : (w.controls c).thread = true)
    (hc : (w.controls c).destroyed = false ∨ w.control = some c) (id : MessageId)
    (data : MessageData) (origin : Option ℕ) : P (w.post c id data origin) := by
  unfold World.post
  rw [if_pos ht]
  exact hP.post _ h ht hc rfl

theorem Upholds.peerOpen (hP : Upholds env P) (h : P w) (hw : Sound env w) :
    P (w.peerOpen env) := by
  unfold World.peerOpen
  split_ifs with hc
  · exact h
  have hfree : w.control = none := by simpa using hc
  dsimp only
  split_ifs with hmade
  · exact hP.signalCall (hP.opened (some (w.signal.getD .init)) h hw hfree hmade) _
  · exact hP.failed (some (w.signal.getD .init)) h hw hfree (by simpa using hmade)

theorem Upholds.peerClose (hP : Upholds env P) (h : P w) (hw : Sound env w) (peerId : String) :
    P (w.peerClose env peerId) := by
  unfold World.peerClose
  cases hc : w.control with
  | none => exact hP.nullControl h
  | some c =>
    have ht := (hw.installed c hc).2.2
    dsimp only
    split_ifs
    · exact hP.signalSyncClose (hP.postTo h ht (Or.inr hc) _ _ _)
    · exact hP.postTo h ht (Or.inr hc) _ _ _

theorem Upholds.api (hP : Upholds env P) (h : P w) (hw : Sound env w) (a : Api) :
    P (w.api env a) := by
  unfold World.api
  split_ifs
  · exact h
  cases a with
  | «open» => exact hP.peerOpen h hw
  | close peerId => exact hP.peerClose h hw peerId
  | connect peerId =>
    simp only [peerConnect]
    cases w.control with
    | none => exact hP.nullControl h
    | some c => exact hP.sendCommand h _ _ _ _
  | send peerId data wait =>
    simp only [peerSend]
    cases w.control with
    | none => exact hP.nullControl h
    | some c =>
      dsimp only
      rcases controlSend_cases env c peerId data wait w with ⟨_, _, he⟩ | ⟨-, x, hx, hnone⟩
      · rw [he]
        exact hP.keeps h _ rfl rfl rfl rfl rfl
      · have hsome := hw.channelsSet c peerId x hx
        rw [hnone] at hsome
        cases hsome

theorem Upholds.apis (hP : Upholds env P) (h : P w) (hw : Sound env w) (as : List Api) :
    P (as.foldl (World.api env) w) := by
  induction as generalizing w with
  | nil => exact h
  | cons a as ih =>
    have hm : Moves env nobody w (w.api env a) := api_moves hw.channelsSet a
    have hcalls : Calls env (fun _ _ => True) nobody w (w.api env a) := hm.calls
    exact ih (hP.api h hw a) (hcalls.sound hw)

/-! ### Events -/

theorem Upholds.callEventHandler (hP : Upholds env P) (h : P w) (hw : Sound env w)
    (source : Option ℕ) (e : Event) : P (w.callEventHandler env source e) := by
  unfold World.callEventHandler
  split_ifs
  · have h' : P { w with obs := w.obs ++ [.handler w.control source e] } :=
      hP.keeps h _ rfl rfl rfl rfl rfl
    have hw' : Sound env { w with obs := w.obs ++ [.handler w.control source e] } := { hw with }
    exact hP.apis h' hw' _
  · exact h

theorem Upholds.dropControl (hP : Upholds env P) (h : P w) : P w.dropControl := by
  unfold World.dropControl
  split_ifs
  · exact h
  · cases hc : w.control with
    | none => exact hP.nullControl h
    | some d => exact hP.dropped h hc

theorem Upholds.logClosed (hP : Upholds env P) (h : P w) (session source : Option ℕ) :
    P (w.logClosed session source) := by
  unfold World.logClosed
  split_ifs
  · exact h
  · exact hP.keeps h _ rfl rfl rfl rfl rfl

theorem Upholds.notify (hP : Upholds env P) (h : P w) (hw : Sound env w) (source : Option ℕ)
    (e : Event) : P (w.notify env source e) := by
  cases e with
  | close peerId code desc =>
    simp only [World.notify, peerOnClose]
    split_ifs
    · exact h
    · have h' : P { w with closeOnce := true } := hP.keeps h _ rfl rfl rfl rfl rfl
      have hw' : Sound env { w with closeOnce := true } := { hw with }
      exact hP.logClosed (hP.dropControl (hP.callEventHandler h' hw' source _)) _ _
    · exact hP.callEventHandler h hw source _
  | «open» peerId =>
    have h' : P { w with closeOnce := false } := hP.keeps h _ rfl rfl rfl rfl rfl
    exact hP.callEventHandler h' { hw with } source _
  | connect peerId => exact hP.callEventHandler h hw source _
  | message peerId data => exact hP.callEventHandler h hw source _
  | writable peerId => exact hP.callEventHandler h hw source _

theorem Upholds.observe (hP : Upholds env P) (h : P w) (hw : Sound env w)
    (ho : (w.controls c).observer = true ∨ Tolerates P .nullObserver) (source : Option ℕ)
    (e : Event) : P (w.observe env c source e) := by
  unfold World.observe
  split_ifs with hf hset
  · exact h
  · have h' : P { w with obs := w.obs ++ [.observer c source e] } :=
      hP.keeps h _ rfl rfl rfl rfl rfl
    exact hP.notify h' { hw with } source e
  · exact ho.resolve_left hset h

theorem Upholds.observeIfSet (hP : Upholds env P) (h : P w) (hw : Sound env w) (source : Option ℕ)
    (e : Event) : P (w.observeIfSet env c source e) := by
  unfold World.observeIfSet
  split_ifs with hset
  · exact hP.observe h hw (Or.inl hset) source e
  · exact h

/-! ### Calls of an instance -/

theorem Upholds.perform (hP : Upholds env P) (h : P w) (hw : Sound env w) {x : ℕ} {f : Effect}
    (hc : (w.controls (w.insts x).control).thread = true)
    (hd : (w.controls (w.insts x).control).destroyed = false ∨ Tolerates P .danglingControl)
    (hok : f.Ok (w.insts x)) : P (w.perform env x f) := by
  have reach (w' : World) (hstands : (w.controls (w.insts x).control).destroyed = false → P w') :
      P (if (w.controls (w.insts x).control).destroyed then w.crash .danglingControl else w') := by
    split_ifs with hdestroyed
    · exact hd.resolve_left (by simp [hdestroyed]) h
    · exact hstands (by simpa using hdestroyed)
  unfold World.perform
  split_ifs
  · exact h
  cases f with
  | sendCommand peerId command data => exact reach _ fun _ => hP.sendCommand h _ _ _ _
  | closePeer peerId code => exact reach _ fun hs => hP.postTo h hc (Or.inl hs) _ _ _
  | onPeerConnect peerId => exact reach _ fun _ => hP.observeIfSet h hw _ _
  | onPeerClose peerId code => exact reach _ fun _ => hP.observeIfSet h hw _ _
  | onPeerMessage peerId data => exact reach _ fun _ => hP.observeIfSet h hw _ _
  | onPeerWritable peerId => exact reach _ fun _ => hP.observeIfSet h hw _ _
  | crash f => exact hok.elim
  | removed => exact h
  | closing => exact h
  | opened state => exact h
  | answered origin => exact h

theorem Upholds.performs (hP : Upholds env P) (h : P w) (hw : Sound env w) {x : ℕ}
    {fs : List Effect} (hc : (w.controls (w.insts x).control).thread = true)
    (hd : (w.controls (w.insts x).control).destroyed = false ∨ Tolerates P .danglingControl)
    (hok : ∀ f ∈ fs, f.Ok (w.insts x)) : P (fs.foldl (World.perform env x) w) := by
  induction fs generalizing w with
  | nil => exact h
  | cons f fs ih =>
    have hcalls : Calls env (fun _ _ => True) (fun _ _ => True) w (w.perform env x f) :=
      perform_calls hw.channelsSet trivial (hok f List.mem_cons_self) fun _ _ => trivial
    have hi : (w.perform env x f).insts = w.insts := hcalls.same.insts
    apply ih (hP.perform h hw hc hd (hok f List.mem_cons_self)) (hcalls.sound hw)
    · rw [hi]
      exact hcalls.grows.threads _ hc
    · rw [hi, hcalls.same.destroyed]
      exact hd
    · intro g hg
      rw [hi]
      exact hok g (List.mem_cons_of_mem f hg)

/-! ### Messages

The control that a message is dispatched to stands. -/

theorem Upholds.closePeer (hP : Upholds env P) (h : P w) (hw : Sound env w)
    (hc : (w.controls c).thread = true) (hd : (w.controls c).destroyed = false)
    (code : CloseCode) (k : String) : P (w.closePeer env c code k) := by
  cases hx : (w.controls c).peers.find? k with
  | none =>
    simp only [World.closePeer, hx]
    exact h
  | some x =>
    obtain ⟨hs, hok⟩ := removePeer_effects env (hw.entries c k x hx).live c k code
    have herased := hP.peers (fun peers => peers.erase k) h hd
    have hr : P (w.removePeer env c k x code) := hP.keeps herased _ rfl rfl rfl rfl rfl
    have hgrows := removePeer_grows env c k x code w
    have hcontrol : ((w.removePeer env c k x code).insts x).control = c :=
      hs.control.trans (hw.entries c k x hx).control
    simp only [World.closePeer, hx]
    refine hP.sendCommand (hP.performs hr (hw.removePeer hx code) ?_ (Or.inl ?_) hok) _ _ _ _
    · rw [hcontrol]
      exact hgrows.threads c hc
    · rw [hcontrol, hgrows.destroyed]
      exact hd

theorem Upholds.close (hP : Upholds env P) (h : P w) (hw : Sound env w)
    (hc : (w.controls c).thread = true) (hd : (w.controls c).destroyed = false)
    (code : CloseCode) : P (w.close env c code) := by
  have loop : ∀ (ids : List String) {w : World}, P w → Sound env w →
      (w.controls c).thread = true → (w.controls c).destroyed = false →
      P (ids.foldl (World.closePeer env c code) w) := by
    intro ids
    induction ids with
    | nil => exact fun h _ _ _ => h
    | cons id ids ih =>
      intro w h hw hc hd
      have ht : Ticks env .free w (w.closePeer env c code id) :=
        closePeer_ticks hw c code id fun _ _ _ => trivial
      exact ih (hP.closePeer h hw hc hd code id) (ht.sound hw) (ht.grows.threads c hc)
        ((ht.grows.destroyed c).trans hd)
  have ht : Ticks env .free w _ := closePeers_ticks hw c code
    ((w.controls c).peers.entries.map fun e => (w.insts e.2).remoteId) fun _ _ => trivial
  exact hP.observeIfSet (loop _ h hw hc hd) (ht.sound hw) _ _

theorem Upholds.reject (hP : Upholds env P) (h : P w) (hw : Sound env w)
    (hc : (w.controls c).thread = true) (remoteId : String)
    (failed : (env.initOutcome w.nextInst).ok = false) :
    P (w.reject env c (newPeer env c remoteId w).1) := by
  have ht : Tick env .free w (w.newInst (newPeer env c remoteId w).1) :=
    .rejected w c remoteId hc failed
  have hn : P (w.newInst (newPeer env c remoteId w).1) := hP.keeps h _ rfl rfl rfl rfl rfl
  exact hP.observeIfSet hn (ht.sound hw) _ _

theorem Upholds.register (hP : Upholds env P) (h : P w) (hd : (w.controls c).destroyed = false)
    (p : PeerControl) : P (w.register c p) := by
  have hn : P (w.newInst p) := hP.keeps h _ rfl rfl rfl rfl rfl
  exact hP.peers (fun peers => peers.insert p.remoteId w.nextInst) hn hd

theorem Upholds.createOffers (hP : Upholds env P) (h : P w) (hw : Sound env w)
    (hc : (w.controls c).thread = true) (hd : (w.controls c).destroyed = false)
    (items : List (Option Json)) : P (createOffers env c items w) := by
  induction items generalizing w with
  | nil => exact h
  | cons item items ih =>
    simp only [World.createOffers]
    split
    · exact h
    next remoteId _ =>
      by_cases ok : (env.initOutcome w.nextInst).ok = true
      · rw [if_pos (by rw [newPeer_ok ok])]
        have ht : Tick env .free w (w.register c (newPeer env c remoteId w).1.createOffer) :=
          .registered w c _ [] hc (.offer remoteId ok trivial) trivial
        exact ih (hP.register h hd _) (ht.sound hw) (ht.grows.threads c hc)
          ((ht.grows.destroyed c).trans hd)
      · have failed : (env.initOutcome w.nextInst).ok = false := by simpa using ok
        rw [if_neg (by rw [newPeer_failed failed]; simp)]
        exact hP.reject h hw hc remoteId failed

theorem Upholds.receiveOfferSdp (hP : Upholds env P) (h : P w) (hw : Sound env w)
    (hc : (w.controls c).thread = true) (hd : (w.controls c).destroyed = false)
    (peerId : String) (data : Json) (origin : Option ℕ) :
    P (w.receiveOfferSdp env c peerId data origin) := by
  unfold World.receiveOfferSdp
  split
  · exact h
  · dsimp only
    by_cases ok : (env.initOutcome w.nextInst).ok = true
    · rw [if_pos (by rw [newPeer_ok ok])]
      exact hP.register h hd _
    · have failed : (env.initOutcome w.nextInst).ok = false := by simpa using ok
      rw [if_neg (by rw [newPeer_failed failed]; simp)]
      exact hP.reject h hw hc peerId failed

theorem Upholds.onOpen (hP : Upholds env P) (h : P w) (c : ℕ) (data : Json) :
    P (w.onOpen env c data) := by
  unfold World.onOpen
  split
  · split
    · exact h
    next sessionId _ =>
      have hs : P (w.modifyControl c fun k => { k with sessionId := sessionId }) := by
        refine hP.same h ⟨rfl, rfl, rfl, rfl, fun d => ?_⟩
        rw [modifyControl_controls]
        split_ifs with hd
        · rw [hd]
        · rfl
      exact hP.sendCommand hs _ _ _ _
  · exact h

theorem Upholds.receiveAnswerSdp (hP : Upholds env P) (h : P w) (hw : Sound env w) (c : ℕ)
    (peerId : String) (data : Json) (origin : Option ℕ) :
    P (w.receiveAnswerSdp env c peerId data origin) := by
  unfold World.receiveAnswerSdp
  split
  · exact h
  · split
    · exact h
    next x hx =>
      have hl := (hw.entries c peerId x hx).live
      simp only [runPeer, hl.receiveAnswerSdp_eq, List.foldl_cons, List.foldl_nil, World.perform,
        ite_self]
      exact hP.keeps h _ rfl rfl rfl rfl rfl

theorem Upholds.addIceCandidate (hP : Upholds env P) (h : P w) (hw : Sound env w) (c : ℕ)
    (peerId : String) (data : Json) : P (w.addIceCandidate env c peerId data) := by
  unfold World.addIceCandidate
  split
  · split
    · exact h
    next x hx =>
      have hl := (hw.entries c peerId x hx).live
      simp only [runPeer, hl.addIceCandidate_eq, List.foldl_nil]
      exact hP.keeps h _ rfl rfl rfl rfl rfl
  · exact h

/-- The message makes its control call the observer without a test: a reply about the
creation of a channel, or a refusal to join one. -/
def speaks (env : Env) (m : Message) : Bool :=
  match m.messageId, parseCommand env m.data.dataJson with
  | .commandReceived, some (command, _, data) =>
    command = "channelcreate" || command = "channeljoin" && (refusedId env data "").isSome
  | _, _ => false

/-- The control has its observer, or the message does not need it, or it does not
matter. -/
def MaySpeak (env : Env) (P : World → Prop) (w : World) (m : Message) : Prop :=
  speaks env m = false ∨ (w.controls m.handler).observer = true ∨ Tolerates P .nullObserver

theorem Upholds.onChannelCreate (hP : Upholds env P) (h : P w) (hw : Sound env w)
    (ho : (w.controls c).observer = true ∨ Tolerates P .nullObserver) (data : Json) :
    P (w.onChannelCreate env c data) := by
  rcases onChannelCreate_cases w c data with ⟨id, desc, -, he⟩ | ⟨id, -, he⟩
  · rw [he]
    exact hP.observe h hw ho _ _
  · rw [he]
    exact hP.observe h hw ho _ _

theorem Upholds.onChannelJoin (hP : Upholds env P) (h : P w) (hw : Sound env w) (data : Json)
    (ho : refusedId env data "" = none ∨ (w.controls c).observer = true ∨
      Tolerates P .nullObserver) : P (w.onChannelJoin env c data) := by
  rcases onChannelJoin_cases w c data with ⟨id, desc, hr, he⟩ | ⟨-, he⟩
  · rw [he]
    exact hP.observe h hw (ho.resolve_left (by simp [hr])) _ _
  · rwa [he]

theorem Upholds.onCommandReceived (hP : Upholds env P) (h : P w) (hw : Sound env w) {m : Message}
    (hm : m.messageId = .commandReceived) (hc : (w.controls m.handler).thread = true)
    (hd : (w.controls m.handler).destroyed = false) (ho : MaySpeak env P w m) :
    P (w.onCommandReceived env m.handler m.data.dataJson m.origin) := by
  cases hp : parseCommand env m.data.dataJson with
  | none => rwa [onCommandReceived_none hp]
  | some p =>
    obtain ⟨command, peerId, data⟩ := p
    have hspeaks : speaks env m =
        (decide (command = "channelcreate") ||
          decide (command = "channeljoin") && (refusedId env data "").isSome) := by
      simp only [speaks, hm, hp]
    apply onCommandReceived_cases (motive := P) hp
    · exact fun _ => hP.onOpen h m.handler data
    · intro hcreate
      exact hP.onChannelCreate h hw (ho.resolve_left (by simp [hspeaks, hcreate])) data
    · intro hjoin
      refine hP.onChannelJoin h hw data (ho.imp_left fun hs => ?_)
      rw [hspeaks] at hs
      simpa [hjoin] using hs
    · exact fun _ => hP.closePeer h hw hc hd _ _
    · intro _
      unfold World.createOffer
      split
      · exact h
      · exact hP.createOffers h hw hc hd _
    · exact fun _ => hP.receiveOfferSdp h hw hc hd peerId data m.origin
    · exact fun _ => hP.receiveAnswerSdp h hw m.handler peerId data m.origin
    · exact fun _ => hP.addIceCandidate h hw m.handler peerId data
    · exact h

theorem Upholds.onMessage (hP : Upholds env P) (h : P w) (hw : Sound env w) {m : Message}
    (hc : (w.controls m.handler).thread = true) (hd : (w.controls m.handler).destroyed = false)
    (ho : MaySpeak env P w m) : P (w.onMessage env m) := by
  unfold World.onMessage
  dsimp only
  split
  next hm => exact hP.onCommandReceived h hw hm hc hd ho
  · exact hP.close h hw hc hd _
  · exact hP.closePeer h hw hc hd _ _
  · exact hP.observeIfSet h hw _ _
  · exact hP.close h hw hc hd _

/-! ### Callbacks -/

/-- The call goes to the control of the instance. -/
def reaches : Effect → Bool
  | .sendCommand _ _ _ => true
  | .closePeer _ _ => true
  | .onPeerConnect _ => true
  | .onPeerClose _ _ => true
  | .onPeerMessage _ _ => true
  | .onPeerWritable _ => true
  | _ => false

theorem perform_idle (env : Env) {x : ℕ} {f : Effect} (hr : reaches f = false)
    (hok : f.Ok (w.insts x)) : w.perform env x f = w := by
  unfold World.perform
  split_ifs
  · rfl
  cases f with
  | crash f => exact hok.elim
  | removed => rfl
  | closing => rfl
  | opened state => rfl
  | answered origin => rfl
  | _ => cases hr

theorem performs_idle (env : Env) {x : ℕ} {fs : List Effect} (hr : ∀ f ∈ fs, reaches f = false)
    (hok : ∀ f ∈ fs, f.Ok (w.insts x)) : fs.foldl (World.perform env x) w = w := by
  induction fs with
  | nil => rfl
  | cons f fs ih =>
    rw [List.foldl_cons, perform_idle env (hr f List.mem_cons_self) (hok f List.mem_cons_self)]
    exact ih (fun g hg => hr g (List.mem_cons_of_mem f hg))
      fun g hg => hok g (List.mem_cons_of_mem f hg)

/-- The callback needs no control, or the control stands, or it does not matter. -/
def MayCall (P : World → Prop) (w : World) (x : ℕ) (cb : Callback) : Prop :=
  (∀ f ∈ ((w.insts x).callback cb).2, reaches f = false) ∨
    (w.controls (w.insts x).control).destroyed = false ∨ Tolerates P .danglingControl

theorem Upholds.callback (hP : Upholds env P) (h : P w) (hw : Reached env w) {x : ℕ}
    (hx : x < w.nextInst ∧ (w.insts x).released = false) {cb : Callback} (hd : MayCall P w x cb) :
    P (w.act env (.callback x cb)) := by
  have started := hw.settled x hx.1 hx.2
  obtain ⟨h1, h2, h3, h4, h5, h6⟩ := (PeerControl.callback_keeps (w.insts x) cb).same
  have h' : P (w.setInst x (logged ((w.insts x).callback cb))) :=
    hP.keeps h _ rfl rfl rfl rfl rfl
  have hcontrol : (logged ((w.insts x).callback cb)).control = (w.insts x).control := h1
  have hok : ∀ f ∈ ((w.insts x).callback cb).2,
      f.Ok ((w.setInst x (logged ((w.insts x).callback cb))).insts x) := by
    intro f hf
    rw [setInst_insts_self]
    exact (PeerControl.SameIdentity.ok_iff ⟨h1, h2, h3, h4, h5, h6⟩).mpr
      (PeerControl.callback_ok started cb f hf)
  simp only [World.act, if_pos hx]
  rcases hd with hidle | hd
  · unfold runPeer
    exact (performs_idle env hidle hok).symm ▸ h'
  · apply hP.performs h' (hw.toSound.callback started cb)
    · rw [setInst_insts_self, hcontrol]
      exact hw.owners x hx.1
    · rw [setInst_insts_self, hcontrol]
      exact hd
    · exact hok

end PeerApi.World
