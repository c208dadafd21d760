import PeerApi.Session.CloseRequests
import PeerApi.Session.Isolation
import PeerApi.Session.Queueing
import PeerApi.Session.Reopen
import Mathlib.Data.List.Nodup

/-! `Control::Close` on the webrtc thread. It copies the ids of `peers_`, closes them
one by one and reports the local close last. The handlers of the user run in
between, but all they can do is post further requests: none of them touches
`peers_`, raises an event or drops the control, which stays in place until the last
report.

Two things can stop it half way, and both happen in a handler that waits for the
network thread: the thread never ends, or it crashes on a control without a thread
that a failed `Open` has left behind. The module on joins excludes both, by what the
network thread does during the join and by no `Open` failing. -/

namespace PeerApi

/-- A call through a null observer or on a destroyed control. -/
def Fault.Dangling (f : Fault) : Prop := f = .nullObserver ∨ f = .danglingControl

/-- The close events the observers got, with the control that called. -/
def closeCalls (os : List Obs) : List (ℕ × Event) :=
  os.filterMap fun
    | .observer c _ (.close id code desc) => some (c, .close id code desc)
    | _ => none

namespace World

open Base Relation

variable {env : Env} {w w' : World} {c : ℕ}

/-! ### The installed control stands -/

/-- The installed control has not been destroyed. -/
def Standing (w : World) : Prop := ∀ c, w.control = some c → (w.controls c).destroyed = false

theorem Standing.same (h : Standing w) (hs : SameRegistry w w')
    (hc : ∀ c, w'.control = some c → w.control = some c) : Standing w' := by
  intro c hc'
  rw [hs.destroyed]
  exact h c (hc c hc')

theorem Standing.move {src : ℕ → Effect → Prop} (h : Standing w) (hm : Move env src w w')
    (hw : Sound env w) : Standing w' := by
  have hs := hm.same
  cases hm with
  | opened s free =>
    intro c hc
    obtain rfl : w.nextControl = c := Option.some.inj hc
    rw [hs.destroyed, hw.fresh _ le_rfl]
    rfl
  | failed s free =>
    intro c hc
    cases hc
  | _ => exact h.same hs fun _ hc => hc

theorem Standing.event {source : Option ℕ} {e : Event} (h : Standing w)
    (hm : EventMove env c source e w w') (hw : Sound env w) : Standing w' := by
  have hs := hm.same
  cases hm with
  | move hm => exact h.move hm hw
  | dropped d hd he =>
    intro c hc
    cases hc
  | _ => exact h.same hs fun _ hc => hc

theorem Standing.sessions (h : Standing w) (hs : SameSessions w w') : Standing w' := by
  intro c hc
  rw [hs.control] at hc
  have hd := congrArg Control.destroyed (hs.controls c)
  exact hd.trans (h c hc)

theorem Standing.releases (h : Standing w) : Standing w.releaseControls.releaseInsts := by
  intro c hc
  have hstays : w.releaseControls.controls c = w.controls c := releaseControls_stays (not_dying hc)
  rw [← h c hc, ← hstays]
  rfl

theorem standing_run (env : Env) (as : List Action) : Standing (run (World.step env) init as) :=
  run_of_moves (fun _ hc => by cases hc) (fun hm hw h => h.move hm hw)
    (fun hm hw h => h.event hm hw) (fun hs h => h.sessions hs) (fun h => h.releases) as

/-! ### What a handler can break -/

/-- Nothing dangling has been touched. -/
def Anchored (w : World) : Prop := ∀ f, w.fault = some f → ¬ Fault.Dangling f

theorem Anchored.of_eq (h : Anchored w) (hf : w'.fault = w.fault) : Anchored w' :=
  fun f hf' => h f (hf ▸ hf')

theorem anchored_crash {f : Fault} (hf : ¬ Fault.Dangling f) (w : World) : Anchored (w.crash f) := by
  intro g hg
  obtain rfl : f = g := Option.some.inj hg
  exact hf

theorem Anchored.post (h : Anchored w) (c : ℕ) (id : MessageId) (data : MessageData)
    (origin : Option ℕ) : Anchored (w.post c id data origin) := by
  unfold World.post
  split_ifs
  · exact h.of_eq rfl
  · exact anchored_crash (by simp [Fault.Dangling]) w

theorem Anchored.signalOnClosed (h : Anchored w) (code : CloseStatus) :
    Anchored (w.signalOnClosed code) := by
  refine List.foldlRecOn w.subscribed _ h fun w h c _ => ?_
  unfold onSignalConnectionClosed
  split_ifs
  · exact h.post _ _ _ _
  · exact h

theorem Anchored.net (h : Anchored w) (a : Signal.NetAction) : Anchored (w.net a) := by
  unfold World.net
  cases w.signal with
  | none => exact h
  | some s =>
    refine List.foldlRecOn (s.net a).2 _ ?_ fun w h code _ => h.signalOnClosed code
    exact h.of_eq rfl

theorem Anchored.join (h : Anchored w) (env : Env) : Anchored (w.join env) := by
  have hnet : Anchored ((env.join w.joins).foldl World.net { w with joins := w.joins + 1 }) :=
    List.foldlRecOn _ _ (h.of_eq rfl) fun w h a _ => h.net a
  unfold World.join
  generalize (env.join w.joins).foldl World.net { w with joins := w.joins + 1 } = w₁ at hnet ⊢
  dsimp only
  cases w₁.signal with
  | none => exact hnet
  | some s =>
    dsimp only
    split_ifs
    · exact anchored_crash (by simp [Fault.Dangling]) w₁
    · exact hnet.of_eq rfl

theorem Anchored.signalCall (h : Anchored w) (env : Env) (f : Signal → Signal) :
    Anchored (w.signalCall env f) := by
  unfold World.signalCall
  cases w.signal with
  | none => exact h
  | some s =>
    have h' : Anchored { w with signal := some (f s) } := h.of_eq rfl
    dsimp only
    split_ifs
    · exact h'.join env
    · exact h'

theorem Anchored.peerOpen (h : Anchored w) (env : Env) : Anchored (w.peerOpen env) := by
  unfold World.peerOpen
  dsimp only
  split_ifs
  · exact h
  · refine Anchored.signalCall ?_ env _
    exact h.of_eq rfl
  · exact h.of_eq rfl

theorem Anchored.peerClose (h : Anchored w) (env : Env) (peerId : String) :
    Anchored (w.peerClose env peerId) := by
  unfold World.peerClose
  cases w.control with
  | none => exact anchored_crash (by simp [Fault.Dangling]) w
  | some c =>
    dsimp only
    split_ifs
    · have hq : Anchored (w.closeQueued c .normal) := h.post _ _ _ _
      unfold signalSyncClose
      cases (w.closeQueued c .normal).signal with
      | none => exact anchored_crash (by simp [Fault.Dangling]) _
      | some s => exact hq.signalCall env _
    · exact h.post _ _ _ _

theorem Anchored.controlSend (h : Anchored w) (env : Env) (c : ℕ) (peerId : String)
    (data : List UInt8) (wait : Bool) : Anchored (w.controlSend env c peerId data wait) := by
  rcases controlSend_cases env c peerId data wait w with ⟨handed, returned, he⟩ | ⟨he, -⟩
  · rw [he]
    exact h.of_eq rfl
  · rw [he]
    exact anchored_crash (by simp [Fault.Dangling]) w

theorem Anchored.api (h : Anchored w) (env : Env) (a : Api) : Anchored (w.api env a) := by
  unfold World.api
  split_ifs
  · exact h
  cases a with
  | «open» => exact h.peerOpen env
  | close peerId => exact h.peerClose env peerId
  | connect peerId =>
    simp only [peerConnect]
    cases w.control with
    | none => exact anchored_crash (by simp [Fault.Dangling]) w
    | some c => exact h.of_eq (sendCommand_fault _ _ _ _ w)
  | send peerId data wait =>
    simp only [peerSend]
    cases w.control with
    | none => exact anchored_crash (by simp [Fault.Dangling]) w
    | some c => exact h.controlSend env c peerId data wait

theorem Anchored.callEventHandler (h : Anchored w) (env : Env) (source : Option ℕ) (e : Event) :
    Anchored (w.callEventHandler env source e) := by
  unfold World.callEventHandler
  split_ifs
  · exact List.foldlRecOn _ _ (h.of_eq rfl) fun w h a _ => h.api env a
  · exact h

theorem Anchored.dropControl (h : Anchored w) : Anchored w.dropControl := by
  unfold World.dropControl
  split_ifs
  · exact h
  · cases w.control with
    | none => exact anchored_crash (by simp [Fault.Dangling]) w
    | some c => exact h.of_eq rfl

theorem Anchored.logClosed (h : Anchored w) (session source : Option ℕ) :
    Anchored (w.logClosed session source) := by
  unfold World.logClosed
  split_ifs
  · exact h
  · exact h.of_eq rfl

theorem Anchored.notify (h : Anchored w) (env : Env) (source : Option ℕ) (e : Event) :
    Anchored (w.notify env source e) := by
  cases e with
  | close peerId code desc =>
    simp only [World.notify, peerOnClose]
    split_ifs
    · exact h
    · have h' : Anchored { w with closeOnce := true } := h.of_eq rfl
      exact ((h'.callEventHandler env source _).dropControl).logClosed _ _
    · exact h.callEventHandler env source _
  | «open» peerId =>
    have h' : Anchored { w with closeOnce := false } := h.of_eq rfl
    exact h'.callEventHandler env source _
  | connect peerId => exact h.callEventHandler env source _
  | message peerId data => exact h.callEventHandler env source _
  | writable peerId => exact h.callEventHandler env source _

theorem Anchored.observeIfSet (h : Anchored w) (env : Env) (c : ℕ) (source : Option ℕ) (e : Event) :
    Anchored (w.observeIfSet env c source e) := by
  unfold World.observeIfSet World.observe
  split_ifs
  · exact h
  · have h' : Anchored { w with obs := w.obs ++ [.observer c source e] } := h.of_eq rfl
    exact h'.notify env source e
  · exact h

/-- Performing an effect of an object whose control stands. -/
theorem Anchored.perform (h : Anchored w) {x : ℕ} {f : Effect}
    (hd : (w.controls (w.insts x).control).destroyed = false) (hok : f.Ok (w.insts x)) :
    Anchored (w.perform env x f) := by
  unfold World.perform
  split_ifs
  · exact h
  cases f with
  | sendCommand peerId command data =>
    simp only [hd, Bool.false_eq_true, if_false]
    exact h.of_eq (sendCommand_fault _ _ _ _ w)
  | closePeer peerId code =>
    simp only [hd, Bool.false_eq_true, if_false]
    exact h.post _ _ _ _
  | onPeerConnect peerId =>
    simp only [hd, Bool.false_eq_true, if_false]
    exact h.observeIfSet env _ _ _
  | onPeerClose peerId code =>
    simp only [hd, Bool.false_eq_true, if_false]
    exact h.observeIfSet env _ _ _
  | onPeerMessage peerId data =>
    simp only [hd, Bool.false_eq_true, if_false]
    exact h.observeIfSet env _ _ _
  | onPeerWritable peerId =>
    simp only [hd, Bool.false_eq_true, if_false]
    exact h.observeIfSet env _ _ _
  | crash f => exact hok.elim
  | removed => exact h
  | closing => exact h
  | opened state => exact h
  | answered origin => exact h

theorem Anchored.performs (h : Anchored w) (hl : ChannelsSet w) {x : ℕ} {fs : List Effect}
    (hd : (w.controls (w.insts x).control).destroyed = false)
    (hok : ∀ f ∈ fs, f.Ok (w.insts x)) : Anchored (fs.foldl (World.perform env x) w) := by
  induction fs generalizing w with
  | nil => exact h
  | cons f fs ih =>
    have hcalls : Calls env (fun _ _ => True) (fun _ _ => True) w (w.perform env x f) :=
      perform_calls hl trivial (hok f List.mem_cons_self) fun _ _ => trivial
    apply ih (h.perform hd (hok f List.mem_cons_self)) (hl.same hcalls.same)
    · rw [hcalls.same.insts, hcalls.same.destroyed]
      exact hd
    · intro g hg
      rw [hcalls.same.insts]
      exact hok g (List.mem_cons_of_mem f hg)

theorem Anchored.closePeer (h : Anchored w) (hw : Sound env w)
    (hd : (w.controls c).destroyed = false) (code : CloseCode) (k : String) :
    Anchored (w.closePeer env c code k) := by
  cases hx : (w.controls c).peers.find? k with
  | none =>
    simp only [World.closePeer, hx]
    exact h
  | some x =>
    obtain ⟨hs, hok⟩ := removePeer_effects env (hw.entries c k x hx).live c k code
    have hr : Anchored (w.removePeer env c k x code) := h.of_eq rfl
    have hd' : ((w.removePeer env c k x code).controls
        ((w.removePeer env c k x code).insts x).control).destroyed = false := by
      rw [hs.control, (hw.entries c k x hx).control, (removePeer_grows env c k x code w).destroyed]
      exact hd
    simp only [World.closePeer, hx]
    refine Anchored.of_eq ?_ (leaveChannel_fault k _)
    exact hr.performs (hw.removePeer hx code).channelsSet hd' hok

theorem Anchored.close (h : Anchored w) (hw : Sound env w)
    (hd : (w.controls c).destroyed = false) (code : CloseCode) :
    Anchored (w.close env c code) := by
  have loop : ∀ (ids : List String) {w : World}, Anchored w → Sound env w →
      (w.controls c).destroyed = false →
      Anchored (ids.foldl (World.closePeer env c code) w) := by
    intro ids
    induction ids with
    | nil => exact fun h _ _ => h
    | cons id ids ih =>
      intro w h hw hd
      have ht : Ticks env .free w (w.closePeer env c code id) :=
        closePeer_ticks hw c code id fun _ _ _ => trivial
      exact ih (h.closePeer hw hd code id) (ht.sound hw) ((ht.grows.destroyed c).trans hd)
  exact (loop _ h hw hd).observeIfSet env _ _ _

/-- The two ways in which a handler can stop the webrtc thread. -/
def Interrupted (w : World) : Prop := w.fault = some .deadlock ∨ w.fault = some .noThread

theorem fault_of_anchored (hs : Sound env w) (hw : Wired w) (ha : Anchored w)
    (hi : ¬ Interrupted w) : w.fault = none := by
  by_contra hn
  obtain ⟨f, hf⟩ := Option.ne_none_iff_exists'.mp hn
  have h1 := hs.fault f hf
  have h2 := hw.fault f hf
  have h3 := ha f hf
  cases f with
  | nullObserver => exact h3 (Or.inl rfl)
  | nullControl => exact h2 (Or.inl rfl)
  | nullSignal => exact h2 (Or.inr rfl)
  | nullPeerConnection => exact h1.1 rfl
  | nullDataChannel => exact h1.2 rfl
  | danglingControl => exact h3 (Or.inr rfl)
  | noThread => exact hi (Or.inr hf)
  | deadlock => exact hi (Or.inl hf)

/-! ### What the observer is told -/

theorem closeCalls_append (os os' : List Obs) :
    closeCalls (os ++ os') = closeCalls os ++ closeCalls os' := List.filterMap_append

/-- Calls that raise no close event. -/
theorem Calls.closeCalls {raises : ℕ → Event → Prop} {src : ℕ → Effect → Prop}
    (h : Calls env raises src w w') (hr : ∀ d e, raises d e → ∀ id, ¬ e.Closes id) :
    closeCalls w'.obs = closeCalls w.obs := by
  obtain ⟨os, hos, hall⟩ := h.delivers
  rw [hos, closeCalls_append, show PeerApi.closeCalls os = [] from ?_, List.append_nil]
  refine List.filterMap_eq_nil_iff.mpr fun o ho => ?_
  cases o with
  | observer d source e =>
    cases e with
    | close id code desc =>
      obtain ⟨d, hd⟩ := hall _ ho _ rfl
      exact absurd rfl (hr d _ hd id)
    | _ => rfl
  | _ => rfl

theorem logClosed_observers (session source : Option ℕ) (w : World) :
    (w.logClosed session source).obs.filter Obs.isObserver = w.obs.filter Obs.isObserver := by
  unfold logClosed
  split_ifs
  · rfl
  · simp [Obs.isObserver]

/-- The peer tells nobody else. -/
theorem notify_observers (env : Env) (source : Option ℕ) (e : Event) (w : World) :
    (w.notify env source e).obs.filter Obs.isObserver = w.obs.filter Obs.isObserver := by
  have hcall : ∀ (e : Event) (w : World), (w.callEventHandler env source e).obs.filter Obs.isObserver =
      w.obs.filter Obs.isObserver := by
    intro e w
    unfold callEventHandler
    split_ifs
    · dsimp only
      rw [apis_obs, List.filter_append]
      simp [Obs.isObserver]
    · rfl
  cases e with
  | close peerId code desc =>
    simp only [notify, peerOnClose]
    split_ifs
    · rfl
    · rw [logClosed_observers, dropControl_obs]
      exact hcall _ { w with closeOnce := true }
    · exact hcall _ w
  | «open» peerId => exact hcall _ { w with closeOnce := false }
  | connect peerId => exact hcall _ w
  | message peerId data => exact hcall _ w
  | writable peerId => exact hcall _ w

theorem observe_observers (env : Env) (source : Option ℕ) (e : Event) (running : w.fault = none)
    (hset : (w.controls c).observer = true) :
    (w.observe env c source e).obs.filter Obs.isObserver =
      w.obs.filter Obs.isObserver ++ [.observer c source e] := by
  unfold observe
  rw [if_neg (by simp [running]), if_pos hset, notify_observers, List.filter_append]
  rfl

theorem closeCalls_filter (os : List Obs) : closeCalls (os.filter Obs.isObserver) = closeCalls os := by
  unfold closeCalls
  rw [List.filterMap_filter]
  congr 1
  funext o
  cases o <;> simp [Obs.isObserver]

theorem observe_closeCalls (env : Env) (source : Option ℕ) (running : w.fault = none)
    (hset : (w.controls c).observer = true) (id : String) (code : CloseCode) (desc : String) :
    closeCalls (w.observe env c source (.close id code desc)).obs =
      closeCalls w.obs ++ [(c, .close id code desc)] := by
  rw [← closeCalls_filter, observe_observers env source _ running hset, closeCalls_append,
    closeCalls_filter]
  rfl

theorem leaveChannel_obs (name : String) (w : World) : (w.leaveChannel name).obs = w.obs := by
  unfold leaveChannel sendCommand
  cases w.signal <;> rfl

/-- A close that returns is reported exactly once. -/
theorem closePeer_closeCalls (hw : Sound env w) {k : String} {x : ℕ}
    (hx : (w.controls c).peers.find? k = some x) (code : CloseCode) (hc : w.control = some c)
    (hf : (w.closePeer env c code k).fault = none) :
    closeCalls (w.closePeer env c code k).obs = closeCalls w.obs ++ [(c, .close k code "")] := by
  obtain ⟨hs, hsession, -⟩ := releasePeer_session hw hx code
  obtain ⟨running, he⟩ := closePeer_observes hw hx code hc hf
  have hset := (hs.installed c (hsession.control c hc)).1
  have hrelease := releasePeer_calls (fun _ e => ∀ id, ¬ e.Closes id) hw hx code
    fun f hf _ he => plain_event (PeerControl.callbacks_plain _ _ f hf) he
  rw [he, leaveChannel_obs, observe_closeCalls env _ running hset,
    hrelease.closeCalls fun _ _ h => h]
  rfl

/-- The report comes from the closed object. -/
theorem closePeer_reports (hw : Sound env w) {k : String} {x : ℕ}
    (hx : (w.controls c).peers.find? k = some x) (code : CloseCode) (hc : w.control = some c)
    (hf : (w.closePeer env c code k).fault = none) :
    .observer c (some x) (.close k code "") ∈ (w.closePeer env c code k).obs := by
  obtain ⟨hs, hsession, -⟩ := releasePeer_session hw hx code
  obtain ⟨running, he⟩ := closePeer_observes hw hx code hc hf
  have hset := (hs.installed c (hsession.control c hc)).1
  rw [he, leaveChannel_obs]
  exact (observe_obs env (some x) (.close k code "") running hset).subset (by simp)

/-! ### The loop -/

theorem closePeer_find? (hw : Sound env w) (code : CloseCode) {k k' : String} (hk : k' ≠ k) :
    ((w.closePeer env c code k).controls c).peers.find? k' = (w.controls c).peers.find? k' := by
  cases hx : (w.controls c).peers.find? k with
  | none => simp only [closePeer, hx]
  | some x =>
    rw [(closePeer_calls hw hx code).same.peers, removePeer_find?, if_neg fun h => hk h.2]

/-- Closing a remote peer keeps the session. -/
theorem closePeer_control (hw : Sound env w) (code : CloseCode) {k : String} (hk : k ≠ env.peerId)
    (hc : w.control = some c) : (w.closePeer env c code k).control = some c := by
  cases hx : (w.controls c).peers.find? k with
  | none =>
    simp only [closePeer, hx]
    exact hc
  | some x =>
    refine (closePeer_calls hw hx code).holds ?_ hc
    rintro d e ⟨-, he⟩ hlocal
    exact absurd (he _ hlocal).symm hk

theorem closePeer_closes (hw : Sound env w) (code : CloseCode) {k : String} {x : ℕ}
    (hx : (w.controls c).peers.find? k = some x) :
    ((w.closePeer env c code k).insts x).state = .closed := by
  rw [(closePeer_calls hw hx code).same.insts]
  exact removePeer_closed hw hx code

/-- A crash stays. -/
theorem closePeers_crashed (hw : Sound env w) (code : CloseCode) (ids : List String)
    (hf : (ids.foldl (closePeer env c code) w).fault = none) : w.fault = none := by
  have ht : Ticks env .free w (ids.foldl (closePeer env c code) w) :=
    closePeers_ticks hw c code ids fun _ _ => trivial
  by_contra hn
  exact ht.grows.fault hn hf

/-- Nothing that was observed is forgotten. -/
theorem closePeers_mem (hw : Sound env w) (code : CloseCode) (ids : List String) {o : Obs}
    (ho : o ∈ w.obs) : o ∈ (ids.foldl (closePeer env c code) w).obs :=
  (closePeers_ticks hw c code ids fun _ _ => trivial : Ticks env .free w _).raised.mem ho

/-- What the loop over the copied ids does: one report for each, in order, and all of
them closed, with the session in place. -/
theorem closePeers_closes (hw : Sound env w) (code : CloseCode) {ids : List String}
    (hids : ∀ k ∈ ids, ((w.controls c).peers.find? k).isSome = true) (hnd : ids.Nodup)
    (hlocal : env.peerId ∉ ids) (hc : w.control = some c)
    (hf : (ids.foldl (closePeer env c code) w).fault = none) :
    closeCalls (ids.foldl (closePeer env c code) w).obs =
        closeCalls w.obs ++ ids.map (fun k => (c, .close k code "")) ∧
      (ids.foldl (closePeer env c code) w).control = some c ∧
      (∀ k ∈ ids, ∀ x, (w.controls c).peers.find? k = some x →
        ((ids.foldl (closePeer env c code) w).insts x).state = .closed ∧
        .observer c (some x) (.close k code "") ∈ (ids.foldl (closePeer env c code) w).obs) ∧
      ∀ y, (∀ k ∈ ids, (w.controls c).peers.find? k ≠ some y) →
        (ids.foldl (closePeer env c code) w).insts y = w.insts y := by
  induction ids generalizing w with
  | nil => simp [hc]
  | cons k ids ih =>
    obtain ⟨x, hx⟩ := Option.isSome_iff_exists.mp (hids k List.mem_cons_self)
    obtain ⟨hk, hnd⟩ := List.nodup_cons.mp hnd
    have hne : ∀ k' ∈ ids, k' ≠ k := by
      rintro k' hk' rfl
      exact hk hk'
    have hw' : Sound env (w.closePeer env c code k) :=
      (closePeer_ticks hw c code k fun _ _ _ => trivial : Ticks env .free w _).sound hw
    have hfind : ∀ k' ∈ ids, ((w.closePeer env c code k).controls c).peers.find? k' =
        (w.controls c).peers.find? k' := fun k' hk' => closePeer_find? hw code (hne k' hk')
    have hlocal' : k ≠ env.peerId := fun h => hlocal (h ▸ List.mem_cons_self)
    rw [List.foldl_cons] at hf ⊢
    have hf' := closePeers_crashed hw' code ids hf
    obtain ⟨h1, h2, h3, h4⟩ := ih hw'
      (fun k' hk' => by rw [hfind k' hk']; exact hids k' (List.mem_cons_of_mem k hk')) hnd
      (fun h => hlocal (List.mem_cons_of_mem k h)) (closePeer_control hw code hlocal' hc) hf
    -- the object closed first is none of those closed later
    have hfirst : ∀ k' ∈ ids, ((w.closePeer env c code k).controls c).peers.find? k' ≠ some x := by
      intro k' hk' hx'
      rw [hfind k' hk'] at hx'
      exact hne k' hk' ((hw.entries c k' x hx').remoteId.symm.trans (hw.entries c k x hx).remoteId)
    refine ⟨?_, h2, fun k' hk' y hy => ?_, fun y hy => ?_⟩
    · rw [h1, closePeer_closeCalls hw hx code hc hf']
      simp
    · rcases List.mem_cons.mp hk' with rfl | hk'
      · obtain rfl : x = y := Option.some.inj (hx.symm.trans hy)
        rw [h4 x hfirst]
        exact ⟨closePeer_closes hw code hx,
          closePeers_mem hw' code ids (closePeer_reports hw hx code hc hf')⟩
      · exact h3 k' hk' y ((hfind k' hk').trans hy)
    · rw [h4 y fun k' hk' => by rw [hfind k' hk']; exact hy k' (List.mem_cons_of_mem k hk')]
      exact (closePeer_other hw c code k (hy k List.mem_cons_self)).1

/-! ### Closing down -/

/-- The message makes its control close everything, with the given code. -/
def ClosesAll (code : CloseCode) (m : Message) : Prop :=
  (m.messageId = .close ∨ m.messageId = .onSignalConnectionClose) ∧ m.data.dataInt32 = some code

instance (code : CloseCode) (m : Message) : Decidable (ClosesAll code m) :=
  inferInstanceAs (Decidable (_ ∧ _))

theorem onMessage_closesAll {code : CloseCode} {m : Message} (hm : ClosesAll code m) (w : World) :
    w.onMessage env m = w.close env m.handler code := by
  obtain ⟨hid | hid, hcode⟩ := hm
  · simp only [onMessage, hid, hcode, Option.getD_some]
  · simp only [onMessage, hid, hcode, Option.getD_some]

/-- The step closes control `c` down: each entry is reported as closed once, in the
order of the ids, then the peer itself as the last event; every connection is closed
and no entry is left. -/
structure ClosesDown (env : Env) (w : World) (c : ℕ) (code : CloseCode) (a : Action) : Prop where
  closes : closeCalls (newObs env w a) =
    ((w.controls c).peers.entries.map fun e => (c, .close e.1 code "")) ++
      [(c, .close env.peerId code "")]
  once : (closeCalls (newObs env w a)).Nodup
  last : ((newObs env w a).filter Obs.isObserver).getLast? =
    some (.observer c none (.close env.peerId code ""))
  closed : ∀ k x, (w.controls c).peers.find? k = some x → ((w.step env a).insts x).state = .closed
  empty : ((w.step env a).controls c).peers = ∅
  running : (w.step env a).fault = none

theorem close_loop (hw : Sound env w) (code : CloseCode) (hc : w.control = some c)
    (hlocal : (w.controls c).peers.find? env.peerId = none)
    (hf : (w.close env c code).fault = none) :
    ∃ w₁, Ticks env .free w w₁ ∧ w₁.fault = none ∧ w₁.control = some c ∧
      w.close env c code = w₁.observe env c none (.close env.peerId code "") ∧
      closeCalls w₁.obs = closeCalls w.obs ++
        ((w.controls c).peers.entries.map fun e => (c, .close e.1 code "")) ∧
      ∀ k x, (w.controls c).peers.find? k = some x → (w₁.insts x).state = .closed ∧
        .observer c (some x) (.close k code "") ∈ w₁.obs := by
  have hthread := (hw.installed c hc).2.2
  have hids := hw.remoteIds c
  have hmem : ∀ k, k ∈ (w.controls c).peers.entries.map Prod.fst →
      ((w.controls c).peers.find? k).isSome = true := by
    intro k hk
    obtain ⟨⟨k', x⟩, hx, rfl⟩ := List.mem_map.mp hk
    rw [OrderedMap.mem_entries.mp hx]
    rfl
  have hnd : ((w.controls c).peers.entries.map Prod.fst).Nodup :=
    (w.controls c).peers.sorted.imp ne_of_lt
  have hnot : env.peerId ∉ (w.controls c).peers.entries.map Prod.fst := by
    intro h
    simpa [hlocal] using hmem _ h
  have ht : Ticks env .free w _ :=
    closePeers_ticks hw c code ((w.controls c).peers.entries.map Prod.fst) fun _ _ => trivial
  have hs := ht.sound hw
  have hloop := closePeers_closes hw code hmem hnd hnot hc
  unfold close at hf ⊢
  simp only [hids] at hf ⊢
  generalize ((w.controls c).peers.entries.map Prod.fst).foldl (closePeer env c code) w = w₁
    at ht hs hloop hf ⊢
  have ok : EventOk nobody w₁ c none (.close (w₁.controls c).peerName code "") :=
    Or.inr ⟨_, _, _, rfl⟩
  have hcalls : Calls env (fun _ _ => True) nobody w₁ _ := observeIfSet_calls hs.channelsSet ok trivial
  have hf' : w₁.fault = none := by
    by_contra hn
    exact hcalls.grows.fault hn hf
  obtain ⟨h1, h2, h3, -⟩ := hloop hf'
  refine ⟨w₁, ht, hf', h2, ?_, ?_, fun k x hx => h3 k ?_ x hx⟩
  · rw [hs.named c (ht.grows.threads c hthread), observeIfSet, if_pos (hs.installed c h2).1]
  · rw [h1, List.map_map]
    rfl
  · exact List.mem_map.mpr ⟨(k, x), OrderedMap.mem_entries.mpr hx, rfl⟩

theorem closesDown_of_message (hw : Reached env w) (hwired : Wired w) (hstanding : Standing w)
    (hf : w.fault = none) {m : Message} {queue : List Message} (hq : w.queue = m :: queue)
    {code : CloseCode} (hm : ClosesAll code m) (hset : (w.controls m.handler).observer = true)
    (hlocal : (w.controls m.handler).peers.find? env.peerId = none)
    (hi : ¬ Interrupted (w.step env .process)) : ClosesDown env w m.handler code .process := by
  have hthread := hw.queued m (by rw [hq]; exact List.mem_cons_self)
  have hc := hw.observed _ hset hthread
  have hd : Tick env .free w { w with queue := queue } := .dequeued w m queue hq
  have hs := hd.sound hw.toSound
  have hact : w.act env .process = World.close env m.handler code { w with queue := queue } := by
    simp only [act, process, hq]
    exact onMessage_closesAll hm _
  have hwired' : Wired (w.act env .process) := hwired.act hw hf trivial
  have hanchored : Anchored (w.act env .process) := by
    rw [hact]
    refine Anchored.close ?_ hs (hstanding _ hc) code
    intro f hf'
    cases hf.symm.trans hf'
  have running : (w.act env .process).fault = none := by
    refine fault_of_anchored (act_sound hw .process) hwired' hanchored ?_
    rw [step_running hf] at hi
    exact hi
  obtain ⟨w₁, ht, hf₁, hc₁, he, hcalls, hclosed⟩ :=
    close_loop hs code hc hlocal (by rw [← hact]; exact running)
  rw [he] at hact
  have hs₁ := ht.sound hs
  have hset₁ := (hs₁.installed _ hc₁).1
  obtain ⟨os₁, hos₁, -⟩ := ht.raised
  have hobs₁ : w₁.obs = w.obs ++ os₁ := hos₁
  obtain ⟨os₂, hos₂⟩ := observe_obs env none (.close env.peerId code "") hf₁ hset₁
  have hnew : (w.act env .process).obs = w.obs ++ newObs env w .process := by
    rw [newObs, hact, ← hos₂, hobs₁, List.append_assoc, List.append_assoc, List.drop_left]
  have hcloses : closeCalls (newObs env w .process) =
      ((w.controls m.handler).peers.entries.map fun e => (m.handler, .close e.1 code "")) ++
        [(m.handler, .close env.peerId code "")] := by
    have h := observe_closeCalls env none hf₁ hset₁ env.peerId code ""
    rw [← hact, hnew, closeCalls_append, hcalls, List.append_assoc] at h
    exact List.append_cancel_left h
  refine ⟨hcloses, ?_, ?_, fun k x hx => ?_, ?_, ?_⟩
  · have hnd : ((w.controls m.handler).peers.entries.map Prod.fst).Nodup :=
      (w.controls m.handler).peers.sorted.imp ne_of_lt
    have hinj : Function.Injective fun k => (m.handler, Event.close k code "") := by
      intro k k' h
      cases h
      rfl
    have hlist : (closeCalls (newObs env w .process)) =
        ((w.controls m.handler).peers.entries.map Prod.fst ++ [env.peerId]).map
          fun k => (m.handler, .close k code "") := by
      rw [hcloses, List.map_append, List.map_map]
      rfl
    rw [hlist]
    refine (List.nodup_append.mpr ⟨hnd, List.nodup_singleton _, ?_⟩).map hinj
    rintro k hk k' hk' rfl
    obtain rfl := List.mem_singleton.mp hk'
    obtain ⟨⟨k, x⟩, hx, rfl⟩ := List.mem_map.mp hk
    rw [OrderedMap.mem_entries.mp hx] at hlocal
    cases hlocal
  · have h := observe_observers env none (.close env.peerId code "") hf₁ hset₁
    rw [← hact, hnew, hobs₁, List.filter_append, List.filter_append, List.append_assoc] at h
    rw [List.append_cancel_left h, List.getLast?_concat]
  · have hcall : SameRegistry w₁ (w.act env .process) := by
      rw [hact]
      exact observe_same hs₁.channelsSet code ""
    have hstate : ((w.step env .process).insts x).state = ((w.act env .process).insts x).state := by
      rw [step_running hf]
      exact releaseInsts_keeps (·.state) (fun _ => rfl) x
    rw [hstate, hcall.insts]
    exact (hclosed k x hx).1
  · refine OrderedMap.eq_empty fun k => ?_
    by_contra hne
    obtain ⟨x, hx⟩ := Option.ne_none_iff_exists'.mp hne
    rw [step_running hf] at hx
    have hx' := releaseControls_find? (w := w.act env .process) hx
    rw [hact, ← he, close_removes hs] at hx'
    cases hx'
  · rw [step_running hf]
    exact running

/-! ### Runs -/

/-- No connection to the local id is started. -/
def NamesOthers (env : Env) (w : World) : Action → Prop
  | .process => ∀ m ∈ w.queue.head?, env.peerId ∉ startedIds env w m
  | _ => True

instance (env : Env) (w : World) : (a : Action) → Decidable (NamesOthers env w a)
  | .process => inferInstanceAs (Decidable (∀ m ∈ w.queue.head?, env.peerId ∉ startedIds env w m))
  | .api _ => inferInstanceAs (Decidable True)
  | .command _ _ => inferInstanceAs (Decidable True)
  | .net _ => inferInstanceAs (Decidable True)
  | .callback _ _ => inferInstanceAs (Decidable True)

/-- The guard of a step that starts no connection to the local id. -/
def othersGuard (env : Env) : Guard :=
  { Guard.free with
    starts := fun _ _ ids => env.peerId ∉ ids
    starts_register := fun _ h hm => h (List.mem_cons_of_mem _ hm) }

theorem NamesOthers.admitted {a : Action} (ha : NamesOthers env w a) :
    Admitted env (othersGuard env) w a := by
  cases a with
  | process =>
    intro m queue hq
    exact ⟨ha m (by rw [hq]; rfl), fun _ _ => trivial, fun _ _ _ _ _ _ => trivial,
      fun _ _ _ _ _ => trivial⟩
  | callback x cb => exact ⟨trivial, fun _ _ => trivial⟩
  | _ => trivial

/-- Then none is registered. -/
theorem NamesOthers.step {a : Action} (ha : NamesOthers env w a) (hw : Reached env w)
    (hn : ∀ c, (w.controls c).peers.find? env.peerId = none) (c : ℕ) :
    ((w.step env a).controls c).peers.find? env.peerId = none := by
  rcases step_ticks hw ha.admitted with hs | ⟨-, ht, hs⟩
  · rw [hs]
    exact hn c
  · rw [hs]
    by_contra hne
    obtain ⟨x, hx⟩ := Option.ne_none_iff_exists'.mp hne
    have hx' := releaseControls_find? (w := w.act env a) hx
    have hstarts : ∀ {w' : World} {d : ℕ} {id : String} {ids : List String},
        (othersGuard env).starts w' d (id :: ids) → id ≠ env.peerId := by
      rintro w' d id ids h rfl
      exact h List.mem_cons_self
    rcases ht.find? (A := fun _ k => k ≠ env.peerId) hstarts hx' with hold | hstarted
    · rw [hn c] at hold
      cases hold
    · exact hstarted rfl

theorem no_local_entry {as : List Action} (ha : Along (World.step env) (NamesOthers env) init as)
    (c : ℕ) : ((run (World.step env) init as).controls c).peers.find? env.peerId = none :=
  (ha.invariant (P := fun w => Reached env w ∧ ∀ c, (w.controls c).peers.find? env.peerId = none)
    (fun _ a hw ha => ⟨hw.1.step a, ha.step hw.1 hw.2⟩) ⟨reached_init env, fun _ => rfl⟩).2 c

/-- In every reachable state of a peer to which the server never names itself, the
close of a control that has its observer is complete and ordered, whatever calls the
handlers make meanwhile, as long as those return. -/
theorem close_complete (env : Env) (as : List Action)
    (ha : Along (World.step env) (NamesOthers env) init as) (m : Message) (code : CloseCode)
    (hf : (run (World.step env) init as).fault = none)
    (hm : (run (World.step env) init as).queue.head? = some m) (hcode : ClosesAll code m)
    (hset : ((run (World.step env) init as).controls m.handler).observer = true)
    (hi : ¬ Interrupted ((run (World.step env) init as).step env .process)) :
    ClosesDown env (run (World.step env) init as) m.handler code .process := by
  obtain ⟨queue, hq⟩ := List.head?_eq_some_iff.mp hm
  exact closesDown_of_message (reached_run env as) (wired_of_running hf) (standing_run env as) hf
    hq hcode hset (no_local_entry ha m.handler) hi

/-- Handlers that make every call at every event, on a connection that is closed
politely. -/
def reentrant : Env :=
  { Env.polite "a" Env.alone_ne with
    handler := fun _ => [.close "", .close "b", .connect "d", .send "c" [] false, .open] }

/-- Two connections are being made when the signal connection is lost. -/
def lostWithPeers : List Action :=
  [.api .open, .net (.connectInternal true), .net (.onOpen 0),
    .command (createOfferMessage ["c", "b"]) none, .process,
    .net (.onClose 0 (some .abnormalClose))]

theorem close_complete_lostWithPeers :
    closeCalls (newObs reentrant (run (World.step reentrant) init lostWithPeers) .process) =
      [(0, .close "b" .signalError ""), (0, .close "c" .signalError ""),
        (0, .close "a" .signalError "")] := by
  have h := close_complete reentrant lostWithPeers (by decide +kernel)
    ⟨0, .onSignalConnectionClose, { dataInt32 := some .signalError, ref := true }, none⟩
    .signalError (by decide +kernel) rfl ⟨Or.inr rfl, rfl⟩ (by decide +kernel)
    (by unfold Interrupted; decide +kernel)
  exact h.closes

end World

end PeerApi
