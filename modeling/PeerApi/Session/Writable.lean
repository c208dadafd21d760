import PeerApi.Session.DeadEntries
import PeerApi.Session.Commute
import PeerApi.Session.PeerConnect

/-! The two ways in which a connection is reported writable. `OnPeerOpened` reports it
right after the connect event and names the local peer, as the test of the event
expects; `OnBufferedAmountChange` reports that the buffer of the local channel is empty
and names the remote peer. Both run in callbacks of WebRTC, which arrive on their own or
while `Close` releases the peer connection. -/

namespace PeerApi

namespace PeerControl

/-- The callback opens the connection, announces it and reports it writable under its
local id. -/
structure Opens (p : PeerControl) (cb : Callback) (id : String) : Prop where
  named : id = p.localId
  effects : (p.callback cb).2 =
    [.opened p.state, .onPeerConnect p.remoteId, .onPeerWritable p.localId]
  state : (p.callback cb).1.state = .open
  channels : (p.callback cb).1.bothOpen = true

/-- The callback finds the local channel open with nothing buffered, and reports the
connection writable under its remote id. -/
structure Drains (p : PeerControl) (cb : Callback) (id : String) : Prop where
  named : id = p.remoteId
  effects : (p.callback cb).2 = [.onPeerWritable p.remoteId]
  channel : ∃ ch, p.localDataChannel = some ch ∧ ch.isOpen = true ∧ ch.bufferedAmount = 0

theorem onPeerOpened_bothOpen {p : PeerControl} {id : String}
    (h : .onPeerWritable id ∈ p.onPeerOpened.2) : p.onPeerOpened.1.bothOpen = true := by
  unfold onPeerOpened at h ⊢
  split_ifs at h ⊢ with hb
  · exact hb
  · cases h

theorem onStateChange_bothOpen {p : PeerControl} {side : Side} {id : String}
    (h : .onPeerWritable id ∈ (p.onStateChange side .open).2) :
    (p.onStateChange side .open).1.bothOpen = true := by
  unfold onStateChange at h ⊢
  cases hch : p.channel side with
  | none =>
    rw [hch] at h
    cases h
  | some ch =>
    simp only [hch] at h ⊢
    split_ifs at h ⊢
    · exact onPeerOpened_bothOpen h
    · cases h

theorem onBufferedAmountChange_writable {p : PeerControl} {side : Side} {id : String}
    (h : .onPeerWritable id ∈ p.onBufferedAmountChange side) :
    ∃ ch, p.localDataChannel = some ch ∧ ch.isOpen = true ∧ ch.bufferedAmount = 0 := by
  unfold onBufferedAmountChange at h
  cases hch : p.channel side with
  | none =>
    rw [hch] at h
    cases h
  | some ch =>
    cases hl : p.localDataChannel with
    | none => simp [hch, hl] at h
    | some l =>
      simp only [hch, hl] at h
      split_ifs at h with hw
      · unfold DataChannel.isWritable at hw
        split_ifs at hw with ho
        · exact ⟨l, rfl, ho, by simpa using hw⟩
      · cases h

/-- A report comes from one of the two functions. -/
theorem callback_writable {p : PeerControl} {cb : Callback} {id : String}
    (h : .onPeerWritable id ∈ (p.callback cb).2) : p.Opens cb id ∨ p.Drains cb id := by
  have hr := callback_raises p cb
  have hmem := h
  generalize hq : (p.callback cb).1 = q, hes : (p.callback cb).2 = es at hr hmem
  cases hr with
  | opened side q other state =>
    have hid : id = p.localId := by simpa using hmem
    exact Or.inl ⟨hid, hes, by rw [hq]; exact state, onStateChange_bothOpen h⟩
  | writable side =>
    have hid : id = p.remoteId := by simpa using hmem
    exact Or.inr ⟨hid, hes, onBufferedAmountChange_writable h⟩
  | _ => simp at hmem

/-- A report during a release comes from one of its callbacks. -/
theorem callbacks_writable {p : PeerControl} {cbs : List Callback} {id : String}
    (h : .onPeerWritable id ∈ (p.callbacks cbs).2) :
    ∃ pre cb post, cbs = pre ++ cb :: post ∧
      .onPeerWritable id ∈ ((p.callbacks pre).1.callback cb).2 := by
  induction cbs generalizing p with
  | nil => cases h
  | cons cb cbs ih =>
    rcases List.mem_append.mp h with h | h
    · exact ⟨[], cb, cbs, rfl, h⟩
    · obtain ⟨pre, cb', post, rfl, h'⟩ := ih h
      exact ⟨cb :: pre, cb', post, rfl, h'⟩

theorem Live.close_writable {p : PeerControl} (hl : p.Live) {code : CloseCode}
    {cbs : List Callback} {id : String} (h : .onPeerWritable id ∈ (p.close code cbs).2) :
    .onPeerWritable id ∈ (p.closingPeer.callbacks cbs).2 := by
  rw [hl.close_eq] at h
  simpa using h

end PeerControl

namespace World

open Base Relation

variable {env : Env} {w w' : World} {c : ℕ}

/-- During the action the callback is made on instance `x`, which is `p` then. -/
inductive Moment (env : Env) (w : World) : Action → ℕ → PeerControl → Callback → Prop where
  | reported (x : ℕ) (cb : Callback) (hx : x < w.nextInst) (alive : (w.insts x).released = false) :
      Moment env w (.callback x cb) x (w.insts x) cb
  | releasing (c : ℕ) (k : String) (x : ℕ) (pre : List Callback) (cb : Callback)
      (post : List Callback) (hx : (w.controls c).peers.find? k = some x)
      (release : env.onRelease x = pre ++ cb :: post) :
      Moment env w .process x ((w.insts x).closingPeer.callbacks pre).1 cb

/-- A writable event comes from a callback that opened the connection or found its
buffer empty. -/
def Identified (env : Env) (w : World) (a : Action) (o : Obs) : Prop :=
  ∀ c source id, o = .observer c source (.writable id) → ∃ x p cb, source = some x ∧
    Moment env w a x p cb ∧ p.control = c ∧ (p.Opens cb id ∨ p.Drains cb id)

/-- Calls report as writable only what an instance asks them to. -/
theorem Calls.writable {raises : ℕ → Event → Prop} {src : ℕ → Effect → Prop}
    (h : Calls env raises src w w') :
    Observes (fun o => ∀ c source id, o = .observer c source (.writable id) →
      ∃ x, source = some x ∧ (w.insts x).control = c ∧ src x (.onPeerWritable id)) w w' := by
  refine .of_steps_within (I := SameRegistry w) (fun hs h => hs.trans h.same) (fun hs h => ?_) h
    (.refl w)
  cases h with
  | move h => exact .of_eq h.obs
  | event d source e running set ok admits moves =>
    obtain ⟨os, hos, hsource⟩ := Appends.of_steps EventMove.observes moves
    have hraised := (Appends.of_steps EventMove.raised moves).all hos
    refine ⟨os, hos, fun o ho c' source' id he => ?_⟩
    obtain ⟨rfl, rfl⟩ := hraised o ho c' source' _ he
    have hs' : o.source = source := (hsource o ho).1
    rw [he] at hs'
    obtain rfl : source' = source := hs'
    cases source' with
    | none => rcases ok with ⟨_, hn⟩ | ⟨_, _, _, hn⟩ <;> cases hn
    | some x =>
      obtain ⟨hc, f, hf, hevent, -⟩ := ok
      rw [hs.insts] at hc
      refine ⟨x, rfl, hc, ?_⟩
      cases f with
      | onPeerWritable peerId =>
        cases hevent
        exact hf
      | _ => cases hevent

/-- When no instance acts, nothing is reported writable. -/
theorem Calls.identified {raises : ℕ → Event → Prop} (h : Calls env raises nobody w w')
    (w₀ : World) (a : Action) : Observes (Identified env w₀ a) w w' :=
  h.writable.mono fun _ ho c source id he => by
    obtain ⟨x, -, -, hx⟩ := ho c source id he
    exact hx.elim

theorem Plains.identified (h : Plains env w w') (w₀ : World) (a : Action) :
    Observes (Identified env w₀ a) w w' := by
  refine Appends.of_steps (fun {u v} hp => ?_) h
  cases hp with
  | call hc =>
    have hcalls : Calls env (fun _ _ => True) nobody u v := .single hc
    exact hcalls.identified w₀ a
  | changed x p => exact .of_eq rfl
  | made p => exact .of_eq rfl
  | registered c p => exact .of_eq rfl

/-! ### Closing -/

/-- What is still registered after a close is as it was. -/
theorem closePeer_entry (hw : Sound env w) (c : ℕ) (code : CloseCode) (k : String) {d : ℕ}
    {k' : String} {y : ℕ} (hy : ((w.closePeer env c code k).controls d).peers.find? k' = some y) :
    (w.controls d).peers.find? k' = some y ∧ (w.closePeer env c code k).insts y = w.insts y := by
  cases hx : (w.controls c).peers.find? k with
  | none =>
    have he : w.closePeer env c code k = w := by simp only [closePeer, hx]
    rw [he] at hy ⊢
    exact ⟨hy, rfl⟩
  | some x =>
    rw [(closePeer_calls hw hx code).same.peers, removePeer_find?] at hy
    split_ifs at hy with hdk
    refine ⟨hy, (closePeer_other hw c code k fun hky => hdk ?_).1⟩
    have h1 := hw.entries c k y hky
    have h2 := hw.entries d k' y hy
    exact ⟨h2.control.symm.trans h1.control, h2.remoteId.symm.trans h1.remoteId⟩

theorem closePeer_identified (hw : Sound env w) (c : ℕ) (code : CloseCode) (k : String) :
    Observes (Identified env w .process) w (w.closePeer env c code k) := by
  cases hx : (w.controls c).peers.find? k with
  | none =>
    simp only [closePeer, hx]
    exact .of_eq rfl
  | some x =>
    have hl := (hw.entries c k x hx).live
    have hcontrol := (removePeer_effects env hl c k code).1.control
    have hobs := (closePeer_calls hw hx code).writable
    refine Appends.mono hobs fun o ho d source id he => ?_
    obtain ⟨y, hsource, hd, rfl, hmem⟩ := ho d source id he
    have hrelease : .onPeerWritable id ∈ ((w.insts y).close code (env.onRelease y)).2 := by
      simpa [removeEffects] using hmem
    obtain ⟨pre, cb, post, hpre, hcb⟩ :=
      PeerControl.callbacks_writable (hl.close_writable hrelease)
    refine ⟨y, _, cb, hsource, .releasing c k y pre cb post hx hpre, ?_,
      PeerControl.callback_writable hcb⟩
    have hk := (PeerControl.callbacks_keeps (w.insts y).closingPeer pre).control
    exact (hk.trans hcontrol.symm).trans hd

/-- The moments of a later round are moments of the action. -/
theorem Identified.earlier (hw : Sound env w) {c : ℕ} {code : CloseCode} {k : String} {o : Obs}
    (h : Identified env (w.closePeer env c code k) .process o) : Identified env w .process o := by
  intro d source id he
  obtain ⟨x, p, cb, hsource, hm, hp⟩ := h d source id he
  refine ⟨x, p, cb, hsource, ?_, hp⟩
  cases hm with
  | releasing d k' x pre cb post hx release =>
    obtain ⟨hold, hsame⟩ := closePeer_entry hw c code k hx
    rw [hsame]
    exact .releasing d k' x pre cb post hold release

theorem closePeers_identified (hw : Sound env w) (c : ℕ) (code : CloseCode) (ids : List String) :
    Observes (Identified env w .process) w (ids.foldl (closePeer env c code) w) := by
  induction ids generalizing w with
  | nil => exact .of_eq rfl
  | cons id ids ih =>
    have ht : Ticks env .free w (w.closePeer env c code id) :=
      closePeer_ticks hw c code id fun _ _ _ => trivial
    exact (closePeer_identified hw c code id).trans ((ih (ht.sound hw)).mono fun _ => .earlier hw)

theorem onMessage_identified (hw : Sound env w) {m : Message}
    (hc : (w.controls m.handler).thread = true) :
    Observes (Identified env w .process) w (w.onMessage env m) := by
  apply onMessage_cases (motive := Observes (Identified env w .process) w) hw hc
  · exact fun code k _ => closePeer_identified hw m.handler code k
  · intro code _ _
    have ht : Ticks env .free w _ := closePeers_ticks hw m.handler code
      ((w.controls m.handler).peers.entries.map fun e => (w.insts e.2).remoteId) fun _ _ => trivial
    have hobs : Plains env _ (w.close env m.handler code) :=
      observeIfSet_plains (ht.sound hw).channelsSet m.handler _ code ""
    exact (closePeers_identified hw m.handler code _).trans (hobs.identified w .process)
  · exact fun w' _ hp => hp.identified w .process

/-! ### Steps -/

/-- The guard of an action in which no control raises an event. -/
def Guard.silent : Guard := { Guard.free with raises := fun _ _ => False }

theorem identified_of_silent (hw : Reached env w) {a : Action} (ha : Admitted env .silent w a) :
    Observes (Identified env w a) w (w.act env a) :=
  (act_ticks hw ha).raised.mono fun _ ho c source _ he => ((ho c source _ he).1).elim

theorem act_identified (hw : Reached env w) (a : Action) :
    Observes (Identified env w a) w (w.act env a) := by
  cases a with
  | api a => exact identified_of_silent hw trivial
  | command message origin => exact identified_of_silent hw trivial
  | net a => exact identified_of_silent hw trivial
  | process =>
    simp only [act, process]
    cases hq : w.queue with
    | nil => exact .of_eq rfl
    | cons m queue =>
      have hd : Tick env .free w { w with queue := queue } := .dequeued w m queue hq
      have hm := hw.queued m (by rw [hq]; exact List.mem_cons_self)
      have hobs := onMessage_identified (hd.sound hw.toSound) hm
      refine Appends.mono hobs fun o ho c source id he => ?_
      obtain ⟨x, p, cb, hsource, hmoment, hp⟩ := ho c source id he
      refine ⟨x, p, cb, hsource, ?_, hp⟩
      cases hmoment with
      | releasing d k x pre cb post hx release => exact .releasing d k x pre cb post hx release
  | callback x cb =>
    by_cases hx : x < w.nextInst ∧ (w.insts x).released = false
    · have hobs := (callback_calls hw hx cb).writable
      refine Appends.mono hobs fun o ho d source id he => ?_
      obtain ⟨y, hsource, hd, rfl, hmem⟩ := ho d source id he
      rw [setInst_insts_self] at hd
      have hk := (PeerControl.callback_keeps (w.insts y) cb).control
      exact ⟨y, _, cb, hsource, .reported y cb hx.1 hx.2, hk.symm.trans hd,
        PeerControl.callback_writable hmem⟩
    · simp only [act, if_neg hx]
      exact .of_eq rfl

/-- In every run, each writable event comes from a callback on one of the objects of
the control that delivers it. Either the callback opens the connection: then the event
carries the id of this peer itself, right after the connect event with the remote id,
and the object is open with both channels. Or it finds the local channel open with
nothing buffered: then the event carries the remote id of the object. -/
theorem writable_identified (env : Env) (as : List Action) (a : Action) (c : ℕ)
    (source : Option ℕ) (id : String)
    (h : .observer c source (.writable id) ∈ newObs env (run (World.step env) init as) a) :
    ∃ x p cb, source = some x ∧ Moment env (run (World.step env) init as) a x p cb ∧
      p.control = c ∧ (p.Opens cb id ∧ id = env.peerId ∨ p.Drains cb id) := by
  have hw := reached_run env as
  have hown := ownName_run env as
  generalize run (World.step env) init as = w at hw hown h
  obtain ⟨os, hos, hall⟩ := act_identified hw a
  rw [newObs, hos, List.drop_left] at h
  obtain ⟨x, p, cb, hsource, hm, hc, hp⟩ := hall _ h c source id rfl
  refine ⟨x, p, cb, hsource, hm, hc, hp.imp_left fun ho => ⟨ho, ho.named.trans ?_⟩⟩
  cases hm with
  | reported x cb hx alive => exact hown x hx
  | releasing d k x pre cb post hx release =>
    have hk := (PeerControl.callbacks_keeps (w.insts x).closingPeer pre).localId
    exact hk.trans (hown x (hw.bound d k x hx))

/-- The remote channel of a connection to "b" is open, and the local one is not yet. -/
def halfConnected : List Action := connected.dropLast

theorem writable_identified_opened : ∃ x p cb, some 0 = some x ∧
    Moment (.idle "a" (by decide)) (run (World.step (.idle "a" (by decide))) init halfConnected)
      (.callback 0 (.onStateChange .localSide .open)) x p cb ∧ p.control = 0 ∧
    (p.Opens cb "a" ∧ "a" = (Env.idle "a" (by decide)).peerId ∨ p.Drains cb "a") :=
  writable_identified (.idle "a" (by decide)) halfConnected
    (.callback 0 (.onStateChange .localSide .open)) 0 (some 0) "a" (by decide +kernel)

/-- Every writable event carries the remote id of an open connection that is registered
under it and has nothing buffered. -/
def Addressed (env : Env) (w : World) (a : Action) : Prop :=
  ∀ c source id, .observer c source (.writable id) ∈ newObs env w a → ∃ x ch,
    source = some x ∧ ((w.act env a).controls c).peers.find? id = some x ∧
    ((w.act env a).insts x).remoteId = id ∧ ((w.act env a).insts x).state = .open ∧
    ((w.act env a).insts x).localDataChannel = some ch ∧ ch.bufferedAmount = 0

/-- The connection opens and is reported under the id of the peer itself; and before
that, with only its local channel open, it is reported when its buffer changes. -/
theorem writable_not_addressed :
    ¬ Addressed (.idle "a" (by decide)) (run (World.step (.idle "a" (by decide))) init halfConnected)
      (.callback 0 (.onStateChange .localSide .open)) ∧
    ¬ Addressed (.idle "a" (by decide)) (run (World.step (.idle "a" (by decide))) init
        (offering ++ [.callback 0 (.onStateChange .localSide .open)]))
      (.callback 0 (.onBufferedAmountChange .localSide)) := by
  constructor
  · intro h
    obtain ⟨x, ch, -, hx, -⟩ := h 0 (some 0) "a" (by decide +kernel)
    have hnone : ((World.act (.idle "a" (by decide))
        (run (World.step (.idle "a" (by decide))) init halfConnected)
        (.callback 0 (.onStateChange .localSide .open))).controls 0).peers.find? "a" = none := by
      decide +kernel
    rw [hnone] at hx
    cases hx
  · intro h
    obtain ⟨x, ch, hx, -, -, hs, -⟩ := h 0 (some 0) "b" (by decide +kernel)
    obtain rfl := Option.some.inj hx
    have hstate : ((World.act (.idle "a" (by decide)) (run (World.step (.idle "a" (by decide))) init
        (offering ++ [.callback 0 (.onStateChange .localSide .open)]))
        (.callback 0 (.onBufferedAmountChange .localSide))).insts 0).state = .connecting := by
      decide +kernel
    rw [hstate] at hs
    cases hs

end World

end PeerApi
