import PeerApi.Session.Deeds
import PeerApi.Session.Instances

/-! The descriptions of an object. WebRTC makes one description for an object that was
started; the object sets it and sends it to its remote id, unless it has been closed in
the meantime, and sends no other. What the world has recorded of the commands of an
object is part of the calls it has made, in their order. -/

namespace PeerApi

open Base

/-- A command that is not a candidate, with its channel and its data. -/
def Effect.description? : Effect → Option (String × String × Json)
  | .sendCommand peerId command data =>
    if command = "ice_candidate" then none else some (peerId, command, data)
  | _ => none

namespace PeerControl

/-- How the object sends a description. -/
def announcement (p : PeerControl) (d : SdpType × String) : String × String × Json :=
  (p.remoteId, descriptionCommand d.1, .obj [("sdp", .str d.2)])

/-! ### Callbacks -/

theorem setChannel_localDescriptions (p : PeerControl) (side : Side) (ch : DataChannel) :
    (p.setChannel side ch).localDescriptions = p.localDescriptions := by
  cases side <;> rfl

theorem onStateChange_localDescriptions (p : PeerControl) (side : Side) (state : DataState) :
    (p.onStateChange side state).1.localDescriptions = p.localDescriptions := by
  unfold onStateChange
  split
  · rfl
  next ch _ =>
    split_ifs
    · have hs := setChannel_localDescriptions p side (ch.advance state).onStateChange
      cases state with
      | «open» =>
        simp only [onPeerOpened]
        split_ifs <;> exact hs
      | connecting => exact hs
      | closing => exact hs
      | closed => exact hs
    · rfl

theorem descriptionCommand_ne (type : SdpType) : descriptionCommand type ≠ "ice_candidate" := by
  cases type <;> simp [descriptionCommand]

/-- A callback that makes no description. -/
theorem callback_silent {p : PeerControl} (cb : Callback)
    (h : p.state ≠ .connecting ∨ ∀ sdp, cb ≠ .onSuccess sdp) :
    (p.callback cb).1.localDescriptions = p.localDescriptions ∧
      (p.callback cb).2.filterMap Effect.description? = [] := by
  constructor
  · cases cb with
    | onSuccess sdp =>
      have hs := h.resolve_right fun hne => hne sdp rfl
      simp only [callback, onSuccess]
      split
      · rfl
      · rfl
      · rw [if_neg hs]
    | onFailure => rfl
    | onIceConnectionChange state => rfl
    | onIceCandidate sdpMid sdpMlineIndex sdp => rfl
    | onDataChannel live bufferedAmount oldCloses => rfl
    | channelState side state =>
      simp only [callback]
      split
      · rfl
      · exact setChannel_localDescriptions p side _
    | onStateChange side state => exact onStateChange_localDescriptions p side state
    | onMessage side data => rfl
    | bufferedAmount side amount =>
      simp only [callback]
      split
      · rfl
      · exact setChannel_localDescriptions p side _
    | onBufferedAmountChange side => rfl
  · have hr := callback_raises p cb
    generalize (p.callback cb).1 = q, (p.callback cb).2 = es at hr
    cases hr with
    | described type sdp _ connecting pending state =>
      rcases h with h | h
      · exact absurd connecting h
      · exact absurd rfl (h _)
    | _ => simp [Effect.description?]

theorem callbacks_silent {p : PeerControl} (hs : p.state ≠ .connecting) (cbs : List Callback) :
    (p.callbacks cbs).1.localDescriptions = p.localDescriptions ∧
      (p.callbacks cbs).2.filterMap Effect.description? = [] := by
  induction cbs generalizing p with
  | nil => exact ⟨rfl, rfl⟩
  | cons cb cbs ih =>
    obtain ⟨h1, h2⟩ := callback_silent cb (Or.inl hs)
    have hs' : (p.callback cb).1.state ≠ .connecting := by
      rcases (callback_keeps p cb).state with h | h <;> simp [h, hs]
    obtain ⟨h3, h4⟩ := ih hs'
    simp only [callbacks, List.filterMap_append]
    exact ⟨h3.trans h1, by rw [h2, h4, List.append_nil]⟩

/-- A description is made for an object that waits for it and is connecting. -/
theorem callback_describes {p : PeerControl} (cb : Callback) :
    ((p.callback cb).1.localDescriptions = p.localDescriptions ∧
      (p.callback cb).2.filterMap Effect.description? = []) ∨
    ∃ type sdp, p.pending = some type ∧ p.state = .connecting ∧ (p.callback cb).1.pending = none ∧
      (p.callback cb).1.localDescriptions =
        (if p.peerConnection then p.localDescriptions ++ [(type, sdp)] else p.localDescriptions) ∧
      (p.callback cb).2.filterMap Effect.description? = [p.announcement (type, sdp)] := by
  by_cases hcb : ∀ sdp, cb ≠ .onSuccess sdp
  · exact Or.inl (callback_silent cb (Or.inr hcb))
  · push Not at hcb
    obtain ⟨sdp, rfl⟩ := hcb
    simp only [callback, onSuccess]
    split
    · exact Or.inl ⟨rfl, rfl⟩
    · exact Or.inl ⟨rfl, rfl⟩
    next type sdp hp =>
      by_cases hs : p.state = .connecting
      · rw [if_pos hs]
        refine Or.inr ⟨type, sdp, hp, hs, ?_, ?_, ?_⟩
        · unfold setLocalDescription
          split_ifs <;> rfl
        · unfold setLocalDescription
          split_ifs <;> rfl
        · simp [Effect.description?, descriptionCommand_ne, announcement]
      · rw [if_neg hs]
        exact Or.inl ⟨rfl, rfl⟩

end PeerControl

namespace World

/-! ### Properties of objects -/

/-- What holds of an object when it is made and is kept by every operation on it. -/
structure Lasting (env : Env) (P : PeerControl → Prop) : Prop where
  offering : ∀ c localId remoteId, P { PeerControl.new c localId remoteId with
    peerConnection := true, localDataChannel := some (.observe .connecting 0) }.createOffer
  answering : ∀ c localId remoteId sdp origin, P (PeerControl.receiveOfferSdp sdp origin
    { PeerControl.new c localId remoteId with
      peerConnection := true, localDataChannel := some (.observe .connecting 0) })
  rejected : ∀ c localId remoteId, P (PeerControl.new c localId remoteId)
  callback : ∀ {p} cb, p.Started → P p → P (logged (p.callback cb))
  answered : ∀ {p} sdp origin, p.Live → P p →
    P (logged (p.setRemoteDescription .answer sdp, [.answered origin]))
  candidate : ∀ {p} candidates, p.Live → P p → P { p with candidates := candidates }
  closed : ∀ {p} x code, p.Live → P p → P (logged ((p.close code (env.onRelease x)).1,
    .removed :: (p.close code (env.onRelease x)).2))
  released : ∀ {p}, P p → P { p with released := true }

variable {env : Env} {P : PeerControl → Prop} {R : PeerControl → PeerControl → Prop}
  {m : Option Message} {w w' : World}

theorem Lasting.tick {G : Guard} (hP : Lasting env P) (h : Tick env G w w') (hw : Sound env w)
    (hp : Everywhere P w) : Everywhere P w' := by
  cases h with
  | call h => exact hp.same h.same
  | dequeued m queue h => exact hp
  | received c message origin thread ok => exact hp
  | callback x cb hx alive started report h =>
    exact (hp.setInst (hP.callback cb started (hp x hx))).same h.same
  | answered c k x sdp origin h from_ =>
    have hl := (hw.entries c k x h).live
    rw [hl.receiveAnswerSdp_eq]
    exact hp.setInst (hP.answered sdp origin hl (hp x (hw.bound c k x h)))
  | candidate c k x sdpMid sdpMlineIndex candidate h =>
    have hl := (hw.entries c k x h).live
    rw [hl.addIceCandidate_eq]
    simp only [logged, List.append_nil]
    exact hp.setInst (hP.candidate _ hl (hp x (hw.bound c k x h)))
  | closed c k x code h calls =>
    have hc := hP.closed x code (hw.entries c k x h).live (hp x (hw.bound c k x h))
    have he : Everywhere P (w.modifyControl c fun q => { q with peers := q.peers.erase k }) := hp
    exact (he.setInst hc).same calls.same
  | registered c p ids thread new starts =>
    refine hp.newInst ?_
    cases new with
    | offer remoteId ok asked =>
      rw [newPeer_ok ok]
      exact hP.offering _ _ _
    | answer remoteId sdp origin ok from_ =>
      rw [newPeer_ok ok]
      exact hP.answering _ _ _ sdp origin
  | rejected c remoteId thread failed =>
    rw [newPeer_failed failed]
    exact hp.newInst (hP.rejected _ _ _)

theorem Lasting.releases (hP : Lasting env P) (hp : Everywhere P w) :
    Everywhere P w.releaseControls.releaseInsts := by
  intro x hx
  have hx' : P (w.releaseControls.insts x) := hp x hx
  by_cases h : w.releaseControls.Lost x
  · rw [releaseInsts_lost h]
    exact hP.released hx'
  · rwa [releaseInsts_stays h]

/-- A lasting property holds of all objects in all runs. -/
theorem Lasting.run (hP : Lasting env P) (as : List Action) :
    Everywhere P (Base.run (World.step env) init as) :=
  run_of_ticks (P := Everywhere P) (fun x hx => by cases hx) (fun ht hw hp => hP.tick ht hw hp)
    hP.releases as

/-! ### One description -/

/-- The object makes one description: while it waits for it there is none, and what it
has sent besides candidates is this description. -/
structure Describes (p : PeerControl) : Prop where
  waiting : p.pending.isSome = true → p.localDescriptions = []
  once : p.localDescriptions.length ≤ 1
  connected : p.state = .connecting → p.peerConnection = true
  typed : ∀ d ∈ p.localDescriptions, p.role = some d.1
  sent : p.log.filterMap Effect.description? = p.localDescriptions.map p.announcement

/-- An operation that makes no description. -/
theorem Describes.silent {p q : PeerControl} (h : Describes p)
    (hpending : q.pending = p.pending ∨ q.pending = none)
    (hlocal : q.localDescriptions = p.localDescriptions)
    (hconnected : q.state = .connecting → q.peerConnection = true) (hrole : q.role = p.role)
    (hid : q.remoteId = p.remoteId)
    (hlog : q.log.filterMap Effect.description? = p.log.filterMap Effect.description?) :
    Describes q := by
  have hannounce : q.announcement = p.announcement := by
    funext d
    simp only [PeerControl.announcement, hid]
  refine ⟨fun hw => ?_, hlocal ▸ h.once, hconnected, ?_, ?_⟩
  · rw [hlocal]
    refine h.waiting ?_
    rcases hpending with he | he
    · rwa [he] at hw
    · rw [he] at hw
      cases hw
  · rw [hlocal, hrole]
    exact h.typed
  · rw [hlog, hlocal, hannounce]
    exact h.sent

theorem Describes.callback {p : PeerControl} (cb : Callback) (hs : p.Started) (h : Describes p) :
    Describes (logged (p.callback cb)) := by
  have hk := PeerControl.callback_keeps p cb
  have hconnected : (p.callback cb).1.state = .connecting →
      (p.callback cb).1.peerConnection = true := by
    intro hstate
    rw [hk.peerConnection]
    refine h.connected ?_
    rcases hk.state with he | he
    · exact he.symm.trans hstate
    · rw [he] at hstate
      cases hstate
  rcases PeerControl.callback_describes (p := p) cb with ⟨h1, h2⟩ |
      ⟨type, sdp, hpending, hstate, h1, h2, h3⟩
  · refine h.silent hk.pending h1 hconnected hk.role hk.remoteId ?_
    simp only [logged, List.filterMap_append, hk.log, h2, List.append_nil]
  · -- the description that was waited for is the first and the last one
    have hnone := h.waiting (by rw [hpending]; rfl)
    have hlog := h.sent
    rw [h.connected hstate, if_pos rfl, hnone, List.nil_append] at h2
    rw [hnone, List.map_nil] at hlog
    refine ⟨fun hw => ?_, ?_, hconnected, ?_, ?_⟩
    · simp only [logged, h1] at hw
      cases hw
    · simp [logged, h2]
    · simp only [logged, h2, hk.role, List.mem_singleton, forall_eq]
      exact hs.pending type hpending
    · simp only [logged, List.filterMap_append, hk.log, hlog, h2, h3, List.nil_append,
        List.map_cons, List.map_nil, PeerControl.announcement, hk.remoteId]

theorem Describes.closed {p : PeerControl} (hl : p.Live) (code : CloseCode) (cbs : List Callback)
    (h : Describes p) :
    Describes (logged ((p.close code cbs).1, .removed :: (p.close code cbs).2)) := by
  have hk := PeerControl.callbacks_keeps p.closingPeer cbs
  obtain ⟨h1, h2⟩ := PeerControl.callbacks_silent (p := p.closingPeer)
    (by simp [PeerControl.closingPeer]) cbs
  rw [hl.close_eq]
  refine h.silent hk.pending h1 (fun hstate => by cases hstate) hk.role hk.remoteId ?_
  simp only [logged, List.filterMap_append, List.filterMap_cons, List.filterMap_nil,
    Effect.description?, List.cons_append, h2, List.append_nil, hk.log]
  rfl

theorem describes_lasting (env : Env) : Lasting env Describes where
  offering c localId remoteId :=
    ⟨fun _ => rfl, Nat.zero_le 1, fun _ => rfl, fun d hd => (by cases hd), rfl⟩
  answering c localId remoteId sdp origin :=
    ⟨fun _ => rfl, Nat.zero_le 1, fun _ => rfl, fun d hd => (by cases hd), rfl⟩
  rejected c localId remoteId :=
    ⟨fun _ => rfl, Nat.zero_le 1, fun h => (by cases h), fun d hd => (by cases hd), rfl⟩
  callback cb hs h := h.callback cb hs
  answered sdp origin hl h := by
    refine h.silent (Or.inl rfl) rfl h.connected rfl rfl ?_
    simp only [logged, List.filterMap_append]
    exact List.append_nil _
  candidate candidates hl h := h.silent (Or.inl rfl) rfl h.connected rfl rfl rfl
  closed x code hl h := h.closed hl code _
  released h := h.silent (Or.inl rfl) rfl h.connected rfl rfl rfl

/-! ### Commands of an object -/

/-- The calls of an object that became commands. -/
def sentBy (x : ℕ) (w : World) : List Effect :=
  w.commands.filterMap fun sc =>
    if sc.source = some x then some (.sendCommand sc.channel sc.command sc.data) else none

theorem sentBy_of_sends {x : ℕ} (h : Sends (fun sc => sc.source ≠ some x) w w') :
    w'.sentBy x = w.sentBy x := by
  obtain ⟨new, hnew, hne⟩ := h
  have hnil : new.filterMap (fun sc => if sc.source = some x then
      some (Effect.sendCommand sc.channel sc.command sc.data) else none) = [] :=
    List.filterMap_eq_nil_iff.mpr fun sc hsc => if_neg (hne sc hsc)
  rw [sentBy, hnew, List.filterMap_append, hnil, List.append_nil]
  rfl

/-- Calls that no object sends commands in. -/
theorem Calls.sentBy {raises : ℕ → Event → Prop} {src : ℕ → Effect → Prop}
    (h : Calls env raises src w w') (x : ℕ)
    (hsrc : ∀ channel command data, ¬ src x (.sendCommand channel command data)) :
    w'.sentBy x = w.sentBy x := by
  refine sentBy_of_sends (h.sends.mono fun sc ok hx => ?_)
  simp only [CommandOk, hx] at ok
  exact hsrc _ _ _ ok.1

theorem sendCommand_sentBy (x y : ℕ) (channel command : String) (data : Json) (w : World) :
    ∃ l, (w.sendCommand (some x) channel command data).sentBy y = w.sentBy y ++ l ∧
      l.Sublist (if y = x then [.sendCommand channel command data] else []) := by
  unfold sendCommand
  split
  · exact ⟨[], by simp, List.nil_sublist _⟩
  · refine ⟨if y = x then [.sendCommand channel command data] else [], ?_, List.Sublist.refl _⟩
    by_cases hyx : y = x
    · simp [World.sentBy, hyx]
    · simp [World.sentBy, hyx, Ne.symm hyx]

/-- A call becomes at most one command, of the object that makes it. -/
theorem perform_sentBy (env : Env) (hl : ChannelsSet w) {x : ℕ} {f : Effect} (hok : f.Ok (w.insts x))
    (y : ℕ) : ∃ l, (w.perform env x f).sentBy y = w.sentBy y ++ l ∧
      l.Sublist (if y = x then [f] else []) := by
  by_cases hf : ∃ channel command data, f = .sendCommand channel command data
  · obtain ⟨channel, command, data, rfl⟩ := hf
    simp only [perform]
    split_ifs
    · exact ⟨[], by simp, by simp⟩
    · exact ⟨[], by simp, by simp⟩
    · exact ⟨[], by simp [World.sentBy, crash], by simp⟩
    · exact ⟨[], by simp [World.sentBy, crash], by simp⟩
    · simpa [*] using sendCommand_sentBy x y channel command data w
    · simpa [*] using sendCommand_sentBy x y channel command data w
  · have hc : Calls env (fun _ _ => True) (performing x [f]) w (w.perform env x f) :=
      perform_calls hl ⟨rfl, List.mem_singleton_self f⟩ hok fun _ _ => trivial
    refine ⟨[], ?_, List.nil_sublist _⟩
    rw [List.append_nil]
    refine hc.sentBy y fun channel command data hs => hf ⟨channel, command, data, ?_⟩
    exact (List.mem_singleton.mp hs.2).symm

theorem performs_sentBy (env : Env) (hl : ChannelsSet w) {x : ℕ} {fs : List Effect}
    (hok : ∀ f ∈ fs, f.Ok (w.insts x)) (y : ℕ) :
    ∃ l, (fs.foldl (perform env x) w).sentBy y = w.sentBy y ++ l ∧
      l.Sublist (if y = x then fs else []) := by
  induction fs generalizing w with
  | nil => exact ⟨[], by simp, by simp⟩
  | cons f fs ih =>
    have hc : Calls env (fun _ _ => True) (performing x [f]) w (w.perform env x f) :=
      perform_calls hl ⟨rfl, List.mem_singleton_self f⟩ (hok f List.mem_cons_self)
        fun _ _ => trivial
    obtain ⟨l, h1, h2⟩ := perform_sentBy env hl (hok f List.mem_cons_self) y
    obtain ⟨l', h3, h4⟩ := ih (hl.same hc.same) fun g hg => by
      rw [hc.same.insts]
      exact hok g (List.mem_cons_of_mem f hg)
    refine ⟨l ++ l', by rw [List.foldl_cons, h3, h1, List.append_assoc], ?_⟩
    split_ifs at h2 h4 ⊢
    · exact h2.append h4
    · exact h2.append h4

/-- The commands of an object are calls that it has made, in their order. -/
structure Recorded (w : World) : Prop where
  calls : ∀ x, x < w.nextInst → (w.sentBy x).Sublist (w.insts x).log
  none : ∀ x, w.nextInst ≤ x → w.sentBy x = []

theorem Recorded.same (h : Recorded w) (hi : w'.insts = w.insts) (hn : w'.nextInst = w.nextInst)
    (hs : ∀ x, w'.sentBy x = w.sentBy x) : Recorded w' := by
  refine ⟨fun x hx => ?_, fun x hx => ?_⟩
  · rw [hi, hs]
    exact h.calls x (hn ▸ hx)
  · rw [hs]
    exact h.none x (hn ▸ hx)

theorem Recorded.calls_nobody {raises : ℕ → Event → Prop} (h : Recorded w)
    (hc : Calls env raises nobody w w') : Recorded w' :=
  h.same hc.same.insts hc.same.nextInst fun x => hc.sentBy x fun _ _ _ hn => hn

/-- An operation logs its calls and then makes them. -/
theorem Recorded.runs (h : Recorded w) {x : ℕ} (hx : x < w.nextInst) {w₁ : World}
    {fs : List Effect} (hl : ChannelsSet w₁) (hok : ∀ f ∈ fs, f.Ok (w₁.insts x))
    (hn : w₁.nextInst = w.nextInst) (hcommands : w₁.commands = w.commands)
    (hlog : (w₁.insts x).log = (w.insts x).log ++ fs) (hne : ∀ y, y ≠ x → w₁.insts y = w.insts y) :
    Recorded (fs.foldl (perform env x) w₁) := by
  have hc : Calls env (fun _ _ => True) (performing x fs) w₁ (fs.foldl (perform env x) w₁) :=
    performs_calls hl (fun f hf => ⟨rfl, hf⟩) hok fun _ _ _ _ => trivial
  have hsent : ∀ y, w₁.sentBy y = w.sentBy y := fun y => by rw [sentBy, hcommands]; rfl
  refine ⟨fun y hy => ?_, fun y hy => ?_⟩
  · obtain ⟨l, h1, h2⟩ := performs_sentBy env hl hok y
    rw [h1, hc.same.insts, hsent]
    have hy' : y < w.nextInst := by rw [← hn, ← hc.same.nextInst]; exact hy
    by_cases hyx : y = x
    · subst hyx
      rw [if_pos rfl] at h2
      rw [hlog]
      exact (h.calls y hy').append h2
    · rw [if_neg hyx] at h2
      rw [List.sublist_nil.mp h2, List.append_nil, hne y hyx]
      exact h.calls y hy'
  · rw [hc.same.nextInst, hn] at hy
    rw [hc.sentBy y fun _ _ _ hs => ?_, hsent]
    · exact h.none y hy
    · exact absurd hs.1 (Nat.ne_of_gt (hx.trans_le hy))

theorem Recorded.newInst (h : Recorded w) (p : PeerControl) : Recorded (w.newInst p) := by
  refine ⟨fun x hx => ?_, fun x hx => h.none x (Nat.le_of_succ_le hx)⟩
  rcases Nat.lt_succ_iff_lt_or_eq.mp hx with hx | rfl
  · rw [newInst_insts_lt hx]
    exact h.calls x hx
  · have hnil : (w.newInst p).sentBy w.nextInst = [] := h.none _ le_rfl
    rw [hnil]
    exact List.nil_sublist _

theorem Recorded.setInst (h : Recorded w) {x : ℕ} {p : PeerControl}
    (hlog : (w.insts x).log.Sublist p.log) : Recorded (w.setInst x p) := by
  refine ⟨fun y hy => ?_, h.none⟩
  by_cases hyx : y = x
  · subst hyx
    rw [setInst_insts_self]
    exact (h.calls y hy).trans hlog
  · rw [setInst_insts_ne hyx]
    exact h.calls y hy

theorem Recorded.deed (hd : Deed env m w w') (hw : Sound env w) (h : Recorded w) : Recorded w' := by
  cases hd with
  | call hc => exact h.calls_nobody (.single hc)
  | callback x cb hx alive started =>
    have hk := PeerControl.callback_keeps (w.insts x) cb
    obtain ⟨h1, h2, h3, h4, h5, h6⟩ := hk.same
    refine h.runs hx (hw.callback started cb).channelsSet (fun f hf => ?_) rfl rfl ?_
      fun y hyx => setInst_insts_ne hyx _ _
    · rw [setInst_insts_self]
      exact (PeerControl.SameIdentity.ok_iff ⟨h1, h2, h3, h4, h5, h6⟩).mpr
        (PeerControl.callback_ok started cb f hf)
    · rw [setInst_insts_self]
      simp only [hk.log]
  | closed c k x code hx =>
    have hl := (hw.entries c k x hx).live
    have hlog : ((w.insts x).close code (env.onRelease x)).1.log = (w.insts x).log := by
      rw [hl.close_eq]
      exact (PeerControl.callbacks_keeps (w.insts x).closingPeer _).log
    have hruns : Recorded ((removeEffects env x code w).foldl (perform env x)
        (w.removePeer env c k x code)) := by
      refine h.runs (hw.bound c k x hx) (hw.removePeer hx code).channelsSet
        (removePeer_effects env hl c k code).2 rfl rfl ?_ fun y hyx => setInst_insts_ne hyx _ _
      simp only [removePeer, setInst_insts_self, logged, hlog]
    have hleave : Calls env (fun _ _ => True) nobody _ (leaveChannel k
        ((removeEffects env x code w).foldl (perform env x) (w.removePeer env c k x code))) :=
      (leaveChannel_moves k _).calls
    simp only [closePeer, hx]
    exact hruns.calls_nobody hleave
  | answered hm asked read hx =>
    rw [(hw.entries _ _ _ hx).live.receiveAnswerSdp_eq]
    exact h.setInst (List.sublist_append_left _ _)
  | candidate hm asked mid index read hx =>
    rw [(hw.entries _ _ _ hx).live.addIceCandidate_eq]
    exact h.setInst (List.sublist_append_left _ _)
  | offering hm remoteId thread ok =>
    exact (h.newInst _).same rfl rfl fun _ => rfl
  | answering hm asked read thread ok =>
    exact (h.newInst _).same rfl rfl fun _ => rfl
  | rejected hm remoteId thread failed => exact h.newInst _

theorem signalOnCommandReceived_commands (message : Json) (origin : Option ℕ) (w : World) :
    SameRegistry w (w.signalOnCommandReceived message origin) ∧
      (w.signalOnCommandReceived message origin).commands = w.commands := by
  refine List.foldlRecOn w.subscribed _
    (motive := fun w' => SameRegistry w w' ∧ w'.commands = w.commands) ⟨.refl w, rfl⟩ ?_
  intro w' h c _
  have hpost : SameRegistry w' (onSignalCommandReceived message origin w' c) ∧
      (onSignalCommandReceived message origin w' c).commands = w'.commands := by
    unfold onSignalCommandReceived post
    split_ifs <;> exact ⟨⟨rfl, rfl, fun _ => rfl, fun _ => rfl⟩, rfl⟩
  exact ⟨h.1.trans hpost.1, hpost.2.trans h.2⟩

theorem Recorded.step (h : Recorded w) (hw : Reached env w) (a : Action) :
    Recorded (w.step env a) := by
  have hact : Recorded (w.act env a) := by
    by_cases ha : ∀ message origin, a ≠ .command message origin
    · have htaken : Recorded (w.taken a) ∧ Sound env (w.taken a) := by
        cases a with
        | process =>
          refine ⟨h.same rfl rfl fun _ => rfl, { hw.toSound with queued := fun m hm => ?_ }⟩
          exact hw.queued m (List.mem_of_mem_tail hm)
        | _ => exact ⟨h, hw.toSound⟩
      exact deeds_invariant (P := Recorded) (fun hd hw h => h.deed hd hw) (act_deeds hw ha)
        htaken.2 htaken.1
    · push Not at ha
      obtain ⟨message, origin, rfl⟩ := ha
      obtain ⟨h1, h2⟩ := signalOnCommandReceived_commands message origin w
      exact h.same h1.insts h1.nextInst fun x => by rw [World.sentBy, act, h2]; rfl
  unfold World.step
  split_ifs
  · exact h
  · refine ⟨fun x hx => ?_, hact.none⟩
    have hlog := releaseInsts_keeps (w := (w.act env a).releaseControls) (·.log) (fun _ => rfl) x
    rw [hlog]
    exact hact.calls x hx

theorem eq_singleton {α : Type*} {l : List α} {a : α} (h : a ∈ l) (hl : l.length ≤ 1) :
    l = [a] := by
  obtain ⟨b, rfl⟩ := List.length_eq_one_iff.mp (Nat.le_antisymm hl (List.length_pos_of_mem h))
  rw [List.mem_singleton.mp h]

theorem recorded_run (env : Env) (as : List Action) : Recorded (run (World.step env) init as) :=
  (run_invariant (P := fun w => Reached env w ∧ Recorded w)
    (fun _ a h => ⟨h.1.step a, h.2.step h.1 a⟩)
    ⟨reached_init env, fun x hx => (by cases hx), fun x _ => rfl⟩ as).2

/-- An object has at most one description, of the kind it was started for, and all
that it has sent besides candidates is that description, to its remote id, once. -/
theorem description_sent_once (env : Env) (as : List Action) (x : ℕ)
    (hx : x < (run (World.step env) init as).nextInst) :
    let w := run (World.step env) init as
    let p := w.insts x
    (p.localDescriptions = [] ∨
      ∃ type sdp, p.role = some type ∧ p.localDescriptions = [(type, sdp)]) ∧
    ((w.sentBy x).filterMap Effect.description?).Sublist
      (p.localDescriptions.map p.announcement) := by
  have hd := (describes_lasting env).run as x hx
  have hr := (recorded_run env as).calls x hx
  refine ⟨?_, hd.sent ▸ hr.filterMap _⟩
  cases hl : ((run (World.step env) init as).insts x).localDescriptions with
  | nil => exact Or.inl rfl
  | cons d rest =>
    have hmem : d ∈ ((run (World.step env) init as).insts x).localDescriptions := by
      rw [hl]
      exact List.mem_cons_self
    exact Or.inr ⟨d.1, d.2, hd.typed d hmem, hl.symm.trans (eq_singleton hmem hd.once)⟩

/-- A run in which an offer is asked for, made and sent. -/
def describing : List Action :=
  sessionOpen ++ [.command (createOfferMessage ["b"]) none, .process,
    .callback 0 (.onSuccess (some "sdp"))]

theorem description_sent_once_describing :
    let w := run (World.step .alone) init describing
    let p := w.insts 0
    0 < w.nextInst ∧ p.localDescriptions = [(.offer, "sdp")] ∧
    ((w.sentBy 0).filterMap Effect.description?).length = 1 ∧
    (p.localDescriptions = [] ∨
      ∃ type sdp, p.role = some type ∧ p.localDescriptions = [(type, sdp)]) ∧
    ((w.sentBy 0).filterMap Effect.description?).Sublist
      (p.localDescriptions.map p.announcement) :=
  ⟨by decide +kernel, by decide +kernel, by decide +kernel,
    description_sent_once .alone describing 0 (by decide +kernel)⟩

end World

end PeerApi
