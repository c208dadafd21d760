import PeerApi.Session.Steps

/-! What the webrtc thread keeps while it serves a message or a callback. All that it
does is made of a few kinds of parts: changes of objects, registries and the queue,
commands to the server, crashes, calls of the user's handlers while a control is
installed, and the dropping of that control. A property that survives each of these
survives every handler of `Control`. -/

namespace PeerApi.World

open Base Relation

structure Serves (env : Env) (P : World → Prop) : Prop where
  same : ∀ {w w' : World}, P w → w'.fault = w.fault → w'.control = w.control →
    w'.signal = w.signal → w'.joins = w.joins → w'.commands = w.commands → w.obs <+: w'.obs →
    P w'
  /-- No join is waited for but in a handler, and only a call of the interface meets a null
  `control_` or `signal_`. -/
  crash : ∀ {w : World} {f : Fault}, f ≠ .nullControl → f ≠ .nullSignal → f ≠ .deadlock → P w →
    P (w.crash f)
  command : ∀ {w : World} (source : Option ℕ) (channel : String) {command : String} (data : Json),
    command ≠ "" → P w → P (w.sendCommand source channel command data)
  /-- A handler runs while a control is installed, and leaves it installed. -/
  event : ∀ {w : World} {d : ℕ} (source : Option ℕ) (e : Event), P w → w.control = some d →
    P (w.callEventHandler env source e) ∧ (w.callEventHandler env source e).control = some d
  drop : ∀ {w : World} {d : ℕ}, P w → w.control = some d → P w.dropControl

variable {env : Env} {P : World → Prop} {w : World} {c : ℕ}

/-- Objects, registries and the queue may change. -/
theorem Serves.keeps (hP : Serves env P) (h : P w) (w' : World) (hf : w'.fault = w.fault)
    (hc : w'.control = w.control) (hs : w'.signal = w.signal) (hj : w'.joins = w.joins)
    (hk : w'.commands = w.commands) (ho : w'.obs = w.obs) : P w' :=
  hP.same h hf hc hs hj hk (ho ▸ List.prefix_rfl)

theorem Serves.post (hP : Serves env P) (h : P w) (c : ℕ) (id : MessageId) (data : MessageData)
    (origin : Option ℕ) : P (w.post c id data origin) := by
  unfold World.post
  split_ifs
  · exact hP.keeps h _ rfl rfl rfl rfl rfl rfl
  · exact hP.crash (by simp) (by simp) (by simp) h

/-! ### Events -/

theorem Serves.logClosed (hP : Serves env P) (h : P w) (session source : Option ℕ) :
    P (w.logClosed session source) := by
  unfold World.logClosed
  split_ifs
  · exact h
  · exact hP.same h rfl rfl rfl rfl rfl (List.prefix_append _ _)

theorem Serves.notify (hP : Serves env P) (h : P w) {d : ℕ} (hd : w.control = some d)
    (source : Option ℕ) (e : Event) : P (w.notify env source e) := by
  cases e with
  | close peerId code desc =>
    simp only [World.notify, peerOnClose]
    have h' : P { w with closeOnce := true } := hP.keeps h _ rfl rfl rfl rfl rfl rfl
    split_ifs
    · exact h
    · obtain ⟨h1, h2⟩ := hP.event source (.close peerId code desc) h' hd
      exact hP.logClosed (hP.drop h1 h2) _ _
    · exact (hP.event source _ h hd).1
  | «open» peerId =>
    have h' : P { w with closeOnce := false } := hP.keeps h _ rfl rfl rfl rfl rfl rfl
    exact (hP.event source _ h' hd).1
  | connect peerId => exact (hP.event source _ h hd).1
  | message peerId data => exact (hP.event source _ h hd).1
  | writable peerId => exact (hP.event source _ h hd).1

/-- An event is raised by the control of the session, if by any. -/
theorem Serves.observe (hP : Serves env P) (h : P w) (hw : Sound env w)
    (hc : (w.controls c).thread = true) (source : Option ℕ) (e : Event) :
    P (w.observe env c source e) := by
  unfold World.observe
  split_ifs with hf ho
  · exact h
  · have h' : P { w with obs := w.obs ++ [.observer c source e] } :=
      hP.same h rfl rfl rfl rfl rfl (List.prefix_append _ _)
    exact hP.notify h' (hw.observed c ho hc) source e
  · exact hP.crash (by simp) (by simp) (by simp) h

theorem Serves.observeIfSet (hP : Serves env P) (h : P w) (hw : Sound env w)
    (hc : (w.controls c).thread = true) (source : Option ℕ) (e : Event) :
    P (w.observeIfSet env c source e) := by
  unfold World.observeIfSet
  split_ifs
  · exact hP.observe h hw hc source e
  · exact h

/-! ### Calls of an instance -/

theorem Serves.perform (hP : Serves env P) (h : P w) (hw : Sound env w) {x : ℕ} {f : Effect}
    (hc : (w.controls (w.insts x).control).thread = true) (hok : f.Ok (w.insts x)) :
    P (w.perform env x f) := by
  have dangling : P (w.crash .danglingControl) := hP.crash (by simp) (by simp) (by simp) h
  have event (e : Event) : P (if (w.controls (w.insts x).control).destroyed then
      w.crash .danglingControl else w.observeIfSet env (w.insts x).control (some x) e) := by
    split_ifs
    · exact dangling
    · exact hP.observeIfSet h hw hc _ e
  unfold World.perform
  split_ifs
  · exact h
  cases f with
  | sendCommand peerId command data =>
    dsimp only
    split_ifs
    · exact dangling
    · exact hP.command _ _ _ hok.command_ne h
  | closePeer peerId code =>
    dsimp only
    split_ifs
    · exact dangling
    · exact hP.post h _ _ _ _
  | onPeerConnect peerId => exact event _
  | onPeerClose peerId code => exact event _
  | onPeerMessage peerId data => exact event _
  | onPeerWritable peerId => exact event _
  | crash f => exact hok.elim
  | removed => exact h
  | closing => exact h
  | opened state => exact h
  | answered origin => exact h

theorem Serves.performs (hP : Serves env P) (h : P w) (hw : Sound env w) {x : ℕ}
    {fs : List Effect} (hc : (w.controls (w.insts x).control).thread = true)
    (hok : ∀ f ∈ fs, f.Ok (w.insts x)) : P (fs.foldl (World.perform env x) w) := by
  induction fs generalizing w with
  | nil => exact h
  | cons f fs ih =>
    have hcalls : Calls env (fun _ _ => True) (fun _ _ => True) w (w.perform env x f) :=
      perform_calls hw.channelsSet trivial (hok f List.mem_cons_self) fun _ _ => trivial
    have hi : (w.perform env x f).insts = w.insts := hcalls.same.insts
    apply ih (hP.perform h hw hc (hok f List.mem_cons_self)) (hcalls.sound hw)
    · rw [hi]
      exact hcalls.grows.threads _ hc
    · intro g hg
      rw [hi]
      exact hok g (List.mem_cons_of_mem f hg)

/-- Everything up to the announcement of a close. -/
theorem Serves.releasePeer (hP : Serves env P) (h : P w) (hw : Sound env w)
    (hc : (w.controls c).thread = true) {k : String} {x : ℕ}
    (hx : (w.controls c).peers.find? k = some x) (code : CloseCode) :
    P ((removeEffects env x code w).foldl (World.perform env x) (w.removePeer env c k x code)) := by
  obtain ⟨hs, hok⟩ := removePeer_effects env (hw.entries c k x hx).live c k code
  have hr : P (w.removePeer env c k x code) := hP.keeps h _ rfl rfl rfl rfl rfl rfl
  have ht : ((w.removePeer env c k x code).controls
      ((w.removePeer env c k x code).insts x).control).thread = true := by
    rw [hs.control, (hw.entries c k x hx).control]
    exact (removePeer_grows env c k x code w).threads c hc
  exact hP.performs hr (hw.removePeer hx code) ht hok

theorem Serves.closePeer (hP : Serves env P) (h : P w) (hw : Sound env w)
    (hc : (w.controls c).thread = true) (code : CloseCode) (k : String) :
    P (w.closePeer env c code k) := by
  cases hx : (w.controls c).peers.find? k with
  | none =>
    simp only [World.closePeer, hx]
    exact h
  | some x =>
    simp only [World.closePeer, hx]
    exact hP.command _ _ _ (by decide) (hP.releasePeer h hw hc hx code)

theorem Serves.closePeers (hP : Serves env P) (h : P w) (hw : Sound env w)
    (hc : (w.controls c).thread = true) (code : CloseCode) (ids : List String) :
    P (ids.foldl (World.closePeer env c code) w) := by
  induction ids generalizing w with
  | nil => exact h
  | cons id ids ih =>
    have ht : Ticks env .free w (w.closePeer env c code id) :=
      closePeer_ticks hw c code id fun _ _ _ => trivial
    exact ih (hP.closePeer h hw hc code id) (ht.sound hw) (ht.grows.threads c hc)

theorem Serves.close (hP : Serves env P) (h : P w) (hw : Sound env w)
    (hc : (w.controls c).thread = true) (code : CloseCode) : P (w.close env c code) := by
  unfold World.close
  dsimp only
  generalize (w.controls c).peers.entries.map (fun e => (w.insts e.2).remoteId) = ids
  have ht : Ticks env .free w (ids.foldl (World.closePeer env c code) w) :=
    closePeers_ticks hw c code ids fun _ _ => trivial
  exact hP.observeIfSet (hP.closePeers h hw hc code ids) (ht.sound hw) (ht.grows.threads c hc) _ _

/-! ### Commands of the signal server -/

theorem Serves.reject (hP : Serves env P) (h : P w) (hw : Sound env w)
    (hc : (w.controls c).thread = true) (remoteId : String)
    (failed : (env.initOutcome w.nextInst).ok = false) :
    P (w.reject env c (newPeer env c remoteId w).1) := by
  have ht : Tick env .free w (w.newInst (newPeer env c remoteId w).1) :=
    .rejected w c remoteId hc failed
  have hn : P (w.newInst (newPeer env c remoteId w).1) := hP.keeps h _ rfl rfl rfl rfl rfl rfl
  exact hP.observeIfSet hn (ht.sound hw) (ht.grows.threads c hc) _ _

theorem Serves.createOffers (hP : Serves env P) (h : P w) (hw : Sound env w)
    (hc : (w.controls c).thread = true) (items : List (Option Json)) :
    P (createOffers env c items w) := by
  induction items generalizing w with
  | nil => exact h
  | cons item items ih =>
    simp only [World.createOffers]
    split
    · exact h
    next remoteId _ =>
      by_cases ok : (env.initOutcome w.nextInst).ok = true
      · rw [if_pos (by rw [newPeer_ok ok])]
        have ht : Tick env .free w (w.register c (newPeer env c remoteId w).1.createOffer) :=
          .registered w c _ [] hc (.offer remoteId ok trivial) trivial
        exact ih (hP.keeps h _ rfl rfl rfl rfl rfl rfl) (ht.sound hw) (ht.grows.threads c hc)
      · have failed : (env.initOutcome w.nextInst).ok = false := by simpa using ok
        rw [if_neg (by rw [newPeer_failed failed]; simp)]
        exact hP.reject h hw hc remoteId failed

theorem Serves.receiveOfferSdp (hP : Serves env P) (h : P w) (hw : Sound env w)
    (hc : (w.controls c).thread = true) (peerId : String) (data : Json) (origin : Option ℕ) :
    P (w.receiveOfferSdp env c peerId data origin) := by
  unfold World.receiveOfferSdp
  split
  · exact h
  · dsimp only
    by_cases ok : (env.initOutcome w.nextInst).ok = true
    · rw [if_pos (by rw [newPeer_ok ok])]
      exact hP.keeps h _ rfl rfl rfl rfl rfl rfl
    · have failed : (env.initOutcome w.nextInst).ok = false := by simpa using ok
      rw [if_neg (by rw [newPeer_failed failed]; simp)]
      exact hP.reject h hw hc peerId failed

theorem Serves.onOpen (hP : Serves env P) (h : P w) (c : ℕ) (data : Json) :
    P (w.onOpen env c data) := by
  unfold World.onOpen
  split
  · split
    · exact h
    · exact hP.command _ _ _ (by decide) (hP.keeps h _ rfl rfl rfl rfl rfl rfl)
  · exact h

theorem Serves.onChannelCreate (hP : Serves env P) (h : P w) (hw : Sound env w)
    (hc : (w.controls c).thread = true) (data : Json) : P (w.onChannelCreate env c data) := by
  rcases onChannelCreate_cases w c data with ⟨id, desc, -, he⟩ | ⟨id, -, he⟩
  · rw [he]
    exact hP.observe h hw hc _ _
  · rw [he]
    exact hP.observe h hw hc _ _

theorem Serves.onChannelJoin (hP : Serves env P) (h : P w) (hw : Sound env w)
    (hc : (w.controls c).thread = true) (data : Json) : P (w.onChannelJoin env c data) := by
  rcases onChannelJoin_cases w c data with ⟨id, desc, -, he⟩ | ⟨-, he⟩
  · rw [he]
    exact hP.observe h hw hc _ _
  · rwa [he]

theorem Serves.receiveAnswerSdp (hP : Serves env P) (h : P w) (hw : Sound env w) (c : ℕ)
    (peerId : String) (data : Json) (origin : Option ℕ) :
    P (w.receiveAnswerSdp env c peerId data origin) := by
  unfold World.receiveAnswerSdp
  split
  · exact h
  · split
    · exact h
    next x hx =>
      have hl := (hw.entries c peerId x hx).live
      simp only [runPeer, hl.receiveAnswerSdp_eq, List.foldl_cons, List.foldl_nil, World.perform,
        ite_self]
      exact hP.keeps h _ rfl rfl rfl rfl rfl rfl

theorem Serves.addIceCandidate (hP : Serves env P) (h : P w) (hw : Sound env w) (c : ℕ)
    (peerId : String) (data : Json) : P (w.addIceCandidate env c peerId data) := by
  unfold World.addIceCandidate
  split
  · split
    · exact h
    next x hx =>
      have hl := (hw.entries c peerId x hx).live
      simp only [runPeer, hl.addIceCandidate_eq, List.foldl_nil]
      exact hP.keeps h _ rfl rfl rfl rfl rfl rfl
  · exact h

theorem Serves.onCommandReceived (hP : Serves env P) (h : P w) (hw : Sound env w)
    (hc : (w.controls c).thread = true) (message : Json) (origin : Option ℕ) :
    P (w.onCommandReceived env c message origin) := by
  cases hp : parseCommand env message with
  | none => rwa [onCommandReceived_none hp]
  | some p =>
    obtain ⟨command, peerId, data⟩ := p
    apply onCommandReceived_cases (motive := P) hp
    · exact fun _ => hP.onOpen h c data
    · exact fun _ => hP.onChannelCreate h hw hc data
    · exact fun _ => hP.onChannelJoin h hw hc data
    · exact fun _ => hP.closePeer h hw hc _ _
    · intro _
      unfold World.createOffer
      split
      · exact h
      · exact hP.createOffers h hw hc _
    · exact fun _ => hP.receiveOfferSdp h hw hc peerId data origin
    · exact fun _ => hP.receiveAnswerSdp h hw c peerId data origin
    · exact fun _ => hP.addIceCandidate h hw c peerId data
    · exact h

/-! ### Steps -/

theorem Serves.onMessage (hP : Serves env P) (h : P w) (hw : Sound env w) {m : Message}
    (hc : (w.controls m.handler).thread = true) : P (w.onMessage env m) := by
  unfold World.onMessage
  dsimp only
  split
  · exact hP.onCommandReceived h hw hc _ _
  · exact hP.close h hw hc _
  · exact hP.closePeer h hw hc _ _
  · exact hP.observeIfSet h hw hc _ _
  · exact hP.close h hw hc _

theorem Serves.process (hP : Serves env P) (h : P w) (hw : Sound env w) : P (w.process env) := by
  unfold World.process
  split
  · exact h
  next m queue hq =>
    have hm := hw.queued m (by rw [hq]; exact List.mem_cons_self)
    have hd : Tick env .free w { w with queue := queue } := .dequeued w m queue hq
    have h' : P { w with queue := queue } := hP.keeps h _ rfl rfl rfl rfl rfl rfl
    exact hP.onMessage h' (hd.sound hw) hm

theorem Serves.callback (hP : Serves env P) (h : P w) (hw : Reached env w) (x : ℕ)
    (cb : Callback) : P (w.act env (.callback x cb)) := by
  simp only [World.act]
  split_ifs with hx
  · have started := hw.settled x hx.1 hx.2
    obtain ⟨h1, h2, h3, h4, h5, h6⟩ := (PeerControl.callback_keeps (w.insts x) cb).same
    have h' : P (w.setInst x (logged ((w.insts x).callback cb))) :=
      hP.keeps h _ rfl rfl rfl rfl rfl rfl
    apply hP.performs h' (hw.toSound.callback started cb)
    · rw [setInst_insts_self]
      have := hw.owners x hx.1
      rwa [← h1] at this
    · intro f hf
      rw [setInst_insts_self]
      exact (PeerControl.SameIdentity.ok_iff ⟨h1, h2, h3, h4, h5, h6⟩).mpr
        (PeerControl.callback_ok started cb f hf)
  · exact h

/-- A step of the webrtc thread, or of the server. -/
def Action.Serving : Action → Prop
  | .process => True
  | .callback _ _ => True
  | .command _ _ => True
  | _ => False

theorem Serves.step (hP : Serves env P) (h : P w) (hw : Reached env w) {a : Action}
    (ha : a.Serving) : P (w.step env a) := by
  unfold World.step
  split_ifs
  · exact h
  · have hact : P (w.act env a) := by
      cases a with
      | process => exact hP.process h hw.toSound
      | callback x cb => exact hP.callback h hw x cb
      | command message origin =>
        exact List.foldlRecOn w.subscribed _ h fun w h c _ => hP.post h c _ _ _
      | api a => exact ha.elim
      | net a => exact ha.elim
    exact hP.keeps hact _ rfl rfl rfl rfl rfl rfl

theorem Serves.run (hP : Serves env P) (h : P w) (hw : Reached env w) {as : List Action}
    (ha : ∀ a ∈ as, a.Serving) : P (Base.run (World.step env) w as) := by
  induction as generalizing w with
  | nil => exact h
  | cons a as ih =>
    exact ih (hP.step h hw (ha a List.mem_cons_self)) (hw.step a)
      fun a' ha' => ha a' (List.mem_cons_of_mem a ha')

end PeerApi.World
