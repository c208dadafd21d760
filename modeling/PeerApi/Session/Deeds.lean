import PeerApi.Session.Steps

/-! What one step does to the objects, together with the message that makes it do so.
A tick says which operation an object undergoes; a deed says in addition which command
of the server asked for it, and performs the calls of an operation in their order. -/

namespace PeerApi.World

open Base Relation

/-- The message is a command of the server for the given control. -/
structure Commands (env : Env) (m : Message) (c : ℕ) (command peerId : String) (data : Json) :
    Prop where
  messageId : m.messageId = .commandReceived
  handler : m.handler = c
  parsed : parseCommand env m.data.dataJson = some (command, peerId, data)

/-- One deed while the message `m`, if any, is handled. -/
inductive Deed (env : Env) (m : Option Message) : World → World → Prop where
  | call {w w' : World} (h : Call env (fun _ _ => True) nobody w w') : Deed env m w w'
  | callback (w : World) (x : ℕ) (cb : Callback) (hx : x < w.nextInst)
      (alive : (w.insts x).released = false) (started : (w.insts x).Started) :
      Deed env m w (w.runPeer env x ((w.insts x).callback cb))
  | closed (w : World) (c : ℕ) (k : String) (x : ℕ) (code : CloseCode)
      (h : (w.controls c).peers.find? k = some x) : Deed env m w (w.closePeer env c code k)
  | answered (w : World) {m' : Message} (hm : m = some m') {c : ℕ} {k : String} {data : Json}
      (asked : Commands env m' c "answersdp" k data) {sdp : String}
      (read : env.rtc.getStringFromJsonObject data "sdp" = some sdp) {x : ℕ}
      (h : (w.controls c).peers.find? k = some x) :
      Deed env m w (w.setInst x (logged ((w.insts x).receiveAnswerSdp sdp m'.origin)))
  | candidate (w : World) {m' : Message} (hm : m = some m') {c : ℕ} {k : String} {data : Json}
      (asked : Commands env m' c "ice_candidate" k data) {sdpMid : String} {sdpMlineIndex : Int}
      {candidate : String} (mid : env.rtc.getStringFromJsonObject data "sdp_mid" = some sdpMid)
      (index : env.rtc.getIntFromJsonObject data "sdp_mline_index" = some sdpMlineIndex)
      (read : env.rtc.getStringFromJsonObject data "candidate" = some candidate) {x : ℕ}
      (h : (w.controls c).peers.find? k = some x) :
      Deed env m w
        (w.setInst x (logged ((w.insts x).addIceCandidate sdpMid sdpMlineIndex candidate)))
  | offering (w : World) {m' : Message} (hm : m = some m') (remoteId : String)
      (thread : (w.controls m'.handler).thread = true)
      (ok : (env.initOutcome w.nextInst).ok = true) :
      Deed env m w (w.register m'.handler (newPeer env m'.handler remoteId w).1.createOffer)
  | answering (w : World) {m' : Message} (hm : m = some m') {c : ℕ} {k : String} {data : Json}
      (asked : Commands env m' c "offersdp" k data) {sdp : String}
      (read : env.rtc.getStringFromJsonObject data "sdp" = some sdp)
      (thread : (w.controls c).thread = true) (ok : (env.initOutcome w.nextInst).ok = true) :
      Deed env m w (w.register c ((newPeer env c k w).1.receiveOfferSdp sdp m'.origin))
  | rejected (w : World) {m' : Message} (hm : m = some m') (remoteId : String)
      (thread : (w.controls m'.handler).thread = true)
      (failed : (env.initOutcome w.nextInst).ok = false) :
      Deed env m w (w.newInst (newPeer env m'.handler remoteId w).1)

abbrev Deeds (env : Env) (m : Option Message) : World → World → Prop := ReflTransGen (Deed env m)

variable {env : Env} {m : Option Message} {w w' : World}

theorem Calls.deeds (h : Calls env (fun _ _ => True) nobody w w') : Deeds env m w w' :=
  h.lift id fun _ _ hc => Deed.call hc

/-- Running a callback changes the object and then makes its calls. -/
theorem runPeer_calls (hw : Sound env w) {x : ℕ} (started : (w.insts x).Started) (cb : Callback) :
    Calls env (fun _ _ => True) (performing x ((w.insts x).callback cb).2)
      (w.setInst x (logged ((w.insts x).callback cb)))
      (w.runPeer env x ((w.insts x).callback cb)) := by
  obtain ⟨h1, h2, h3, h4, h5, h6⟩ := (PeerControl.callback_keeps (w.insts x) cb).same
  refine performs_calls (hw.callback started cb).channelsSet (fun f hf => ⟨rfl, hf⟩)
    (fun f hf => ?_) fun _ _ _ _ => trivial
  rw [setInst_insts_self]
  exact (PeerControl.SameIdentity.ok_iff ⟨h1, h2, h3, h4, h5, h6⟩).mpr
    (PeerControl.callback_ok started cb f hf)

theorem Deed.ticks (h : Deed env m w w') (hw : Sound env w) : Ticks env .free w w' := by
  cases h with
  | call h => exact .single (.call h)
  | callback x cb hx alive started =>
    exact .single (.callback x cb hx alive started trivial (runPeer_calls hw started cb))
  | closed c k x code h => exact closePeer_ticks hw c code k fun _ _ _ => trivial
  | answered hm asked read h => exact .single (.answered w _ _ _ _ _ h trivial)
  | candidate hm asked mid index read h => exact .single (.candidate w _ _ _ _ _ _ h)
  | offering hm remoteId thread ok =>
    exact .single (.registered w _ _ [] thread (.offer remoteId ok trivial) trivial)
  | answering hm asked read thread ok =>
    exact .single (.registered w _ _ [] thread (.answer _ _ _ ok trivial) trivial)
  | rejected hm remoteId thread failed => exact .single (.rejected w _ remoteId thread failed)

/-- What every deed keeps in a sound world holds after any deeds. -/
theorem deeds_invariant {P : World → Prop}
    (hP : ∀ {w w'}, Deed env m w w' → Sound env w → P w → P w') (h : Deeds env m w w')
    (hw : Sound env w) (hp : P w) : P w' :=
  (calls_invariant (P := fun w => Sound env w ∧ P w)
    (fun h hw => ⟨(h.ticks hw.1).sound hw.1, hP h hw.1 hw.2⟩) h ⟨hw, hp⟩).2

theorem Deeds.sound (h : Deeds env m w w') (hw : Sound env w) : Sound env w' :=
  deeds_invariant (P := Sound env) (fun h hw _ => (h.ticks hw).sound hw) h hw hw

theorem Deeds.threads (h : Deeds env m w w') (hw : Sound env w) {c : ℕ}
    (hc : (w.controls c).thread = true) : (w'.controls c).thread = true :=
  deeds_invariant (P := fun w => (w.controls c).thread = true)
    (fun h hw hc => (h.ticks hw).grows.threads c hc) h hw hc

/-! ### Handlers -/

theorem observe_deeds (hw : Sound env w) (c : ℕ) {e : Event}
    (he : (∃ id, e = .open id) ∨ ∃ id code desc, e = .close id code desc) :
    Deeds env m w (w.observe env c none e) := by
  have ok : EventOk nobody w c none e := he
  exact (observe_calls hw.channelsSet ok trivial).deeds

theorem observeIfSet_deeds (hw : Sound env w) (c : ℕ) {e : Event}
    (he : (∃ id, e = .open id) ∨ ∃ id code desc, e = .close id code desc) :
    Deeds env m w (w.observeIfSet env c none e) := by
  unfold observeIfSet
  split_ifs
  · exact observe_deeds hw c he
  · exact .refl

theorem closePeer_deeds (w : World) (c : ℕ) (code : CloseCode) (k : String) :
    Deeds env m w (w.closePeer env c code k) := by
  cases hx : (w.controls c).peers.find? k with
  | none =>
    simp only [closePeer, hx]
    exact .refl
  | some x => exact .single (.closed w c k x code hx)

theorem close_deeds (hw : Sound env w) (c : ℕ) (code : CloseCode) :
    Deeds env m w (w.close env c code) := by
  have h : Deeds env m w _ := foldl_moves (fun w k => closePeer_deeds w c code k)
    ((w.controls c).peers.entries.map fun e => (w.insts e.2).remoteId) w
  exact h.trans (observeIfSet_deeds (h.sound hw) c (Or.inr ⟨_, _, _, rfl⟩))

theorem onOpen_deeds {c : ℕ} (hc : (w.controls c).thread = true) (data : Json) :
    Deeds env m w (w.onOpen env c data) := by
  unfold onOpen
  split
  · split
    · exact .refl
    next sessionId _ =>
      exact (ReflTransGen.single (Deed.call (.move (.session w c sessionId hc)))).trans
        (createChannel_moves _ _).calls.deeds
  · exact .refl

section

variable {m : Message}

theorem reject_deeds (hw : Sound env w) (hc : (w.controls m.handler).thread = true)
    (remoteId : String) (failed : (env.initOutcome w.nextInst).ok = false) :
    Deeds env (some m) w (w.reject env m.handler (newPeer env m.handler remoteId w).1) := by
  have h : Deed env (some m) w (w.newInst (newPeer env m.handler remoteId w).1) :=
    .rejected w rfl remoteId hc failed
  exact .head h (observeIfSet_deeds ((h.ticks hw).sound hw) _ (Or.inr ⟨_, _, _, rfl⟩))

theorem createOffers_deeds (hw : Sound env w) (hc : (w.controls m.handler).thread = true)
    (items : List (Option Json)) :
    Deeds env (some m) w (createOffers env m.handler items w) := by
  induction items generalizing w with
  | nil => exact .refl
  | cons item items ih =>
    simp only [createOffers]
    split
    · exact .refl
    next remoteId _ =>
      by_cases ok : (env.initOutcome w.nextInst).ok = true
      · rw [if_pos (by rw [newPeer_ok ok])]
        have h : Deed env (some m) w
            (w.register m.handler (newPeer env m.handler remoteId w).1.createOffer) :=
          .offering w rfl remoteId hc ok
        exact .head h (ih ((h.ticks hw).sound hw) ((h.ticks hw).grows.threads _ hc))
      · have failed : (env.initOutcome w.nextInst).ok = false := by simpa using ok
        rw [if_neg (by rw [newPeer_failed failed]; simp)]
        exact reject_deeds hw hc remoteId failed

theorem receiveOfferSdp_deeds (hw : Sound env w) (hc : (w.controls m.handler).thread = true)
    {peerId : String} {data : Json} (asked : Commands env m m.handler "offersdp" peerId data) :
    Deeds env (some m) w (w.receiveOfferSdp env m.handler peerId data m.origin) := by
  unfold receiveOfferSdp
  split
  · exact .refl
  next sdp read =>
    dsimp only
    by_cases ok : (env.initOutcome w.nextInst).ok = true
    · rw [if_pos (by rw [newPeer_ok ok])]
      exact .single (.answering w rfl asked read hc ok)
    · have failed : (env.initOutcome w.nextInst).ok = false := by simpa using ok
      rw [if_neg (by rw [newPeer_failed failed]; simp)]
      exact reject_deeds hw hc peerId failed

theorem receiveAnswerSdp_deeds (hw : Sound env w) {peerId : String} {data : Json}
    (asked : Commands env m m.handler "answersdp" peerId data) :
    Deeds env (some m) w (w.receiveAnswerSdp env m.handler peerId data m.origin) := by
  unfold receiveAnswerSdp
  split
  · exact .refl
  · split
    · exact .refl
    next sdp read _ x hx =>
      have hl := (hw.entries _ peerId x hx).live
      convert ReflTransGen.single (Deed.answered w rfl asked read hx) using 1
      simp only [runPeer, logged, hl.receiveAnswerSdp_eq, List.foldl_cons, List.foldl_nil, perform,
        ite_self]

/-- A candidate is added once or not at all. -/
theorem addIceCandidate_deed (hw : Sound env w) {peerId : String} {data : Json}
    (asked : Commands env m m.handler "ice_candidate" peerId data) :
    w.addIceCandidate env m.handler peerId data = w ∨
      Deed env (some m) w (w.addIceCandidate env m.handler peerId data) := by
  unfold addIceCandidate
  split
  next sdpMid sdpMlineIndex candidate mid index read =>
    split
    · exact Or.inl rfl
    next x hx =>
      have hl := (hw.entries _ peerId x hx).live
      refine Or.inr ?_
      convert Deed.candidate w rfl asked mid index read hx using 1
      simp only [runPeer, logged, hl.addIceCandidate_eq, List.foldl_nil]
  · exact Or.inl rfl

theorem addIceCandidate_deeds (hw : Sound env w) {peerId : String} {data : Json}
    (asked : Commands env m m.handler "ice_candidate" peerId data) :
    Deeds env (some m) w (w.addIceCandidate env m.handler peerId data) := by
  rcases addIceCandidate_deed hw asked with h | h
  · rw [h]
  · exact .single h

theorem onCommandReceived_deeds (hw : Sound env w) (hc : (w.controls m.handler).thread = true)
    (hm : m.messageId = .commandReceived) :
    Deeds env (some m) w (w.onCommandReceived env m.handler m.data.dataJson m.origin) := by
  cases hp : parseCommand env m.data.dataJson with
  | none =>
    rw [onCommandReceived_none hp]
  | some p =>
    obtain ⟨command, peerId, data⟩ := p
    refine onCommandReceived_cases (motive := Deeds env (some m) w) hp _ _
      ?_ ?_ ?_ ?_ ?_ ?_ ?_ ?_ .refl
    · exact fun _ => onOpen_deeds hc data
    · intro _
      rcases onChannelCreate_cases w m.handler data with ⟨id, desc, -, he⟩ | ⟨id, -, he⟩
      · rw [he]
        exact observe_deeds hw _ (Or.inr ⟨_, _, _, rfl⟩)
      · rw [he]
        exact observe_deeds hw _ (Or.inl ⟨_, rfl⟩)
    · intro _
      rcases onChannelJoin_cases w m.handler data with ⟨id, desc, -, he⟩ | ⟨-, he⟩
      · rw [he]
        exact observe_deeds hw _ (Or.inr ⟨_, _, _, rfl⟩)
      · rw [he]
    · exact fun _ => closePeer_deeds w _ _ _
    · intro _
      unfold createOffer
      split
      · exact .refl
      · exact createOffers_deeds hw hc _
    · rintro rfl
      exact receiveOfferSdp_deeds hw hc ⟨hm, rfl, hp⟩
    · rintro rfl
      exact receiveAnswerSdp_deeds hw ⟨hm, rfl, hp⟩
    · rintro rfl
      exact addIceCandidate_deeds hw ⟨hm, rfl, hp⟩

theorem onMessage_deeds (hw : Sound env w) (hc : (w.controls m.handler).thread = true) :
    Deeds env (some m) w (w.onMessage env m) := by
  unfold onMessage
  dsimp only
  split
  next h => exact onCommandReceived_deeds hw hc h
  next => exact close_deeds hw _ _
  next => exact closePeer_deeds w _ _ _
  next => exact observeIfSet_deeds hw _ (Or.inr ⟨_, _, _, rfl⟩)
  next => exact close_deeds hw _ _

end

/-! ### Steps -/

/-- The message a step handles. -/
def handling (w : World) : Action → Option Message
  | .process => w.queue.head?
  | _ => none

/-- The world in which a step begins its deeds. -/
def taken (w : World) : Action → World
  | .process => { w with queue := w.queue.tail }
  | _ => w

/-- A step other than the arrival of a command is made of deeds. -/
theorem act_deeds (hw : Reached env w) {a : Action} (ha : ∀ message origin, a ≠ .command message origin) :
    Deeds env (w.handling a) (w.taken a) (w.act env a) := by
  cases a with
  | api a => exact (api_moves hw.channelsSet a).calls.deeds
  | command message origin => exact absurd rfl (ha message origin)
  | net a => exact (net_moves w a).calls.deeds
  | process =>
    simp only [act, process, handling, taken]
    split
    next hq =>
      rw [hq, List.tail_nil, ← hq]
    next m queue hq =>
      have hd : Tick env .free w { w with queue := queue } := .dequeued w m queue hq
      have hm := hw.queued m (by rw [hq]; exact List.mem_cons_self)
      rw [hq]
      exact onMessage_deeds (hd.sound hw.toSound) hm
  | callback x cb =>
    by_cases hx : x < w.nextInst ∧ (w.insts x).released = false
    · simp only [act, if_pos hx]
      exact .single (.callback w x cb hx.1 hx.2 (hw.settled x hx.1 hx.2))
    · simp only [act, if_neg hx]
      exact .refl

end PeerApi.World
