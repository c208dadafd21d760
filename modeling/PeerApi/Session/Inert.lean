import PeerApi.Session.Steps

/-! A control after the local close. Its `peer_` is null, but messages that were
posted with a reference to it are still processed, and more may be posted until the
last of them is done. Most handlers test `peer_`; a reply about a channel does not,
and the two handlers that start a negotiation work without it. The messages that
leave the control inert are exactly the others. -/

namespace PeerApi.World

open Base Relation PeerControl

variable {env : Env} {w w' : World} {c : ℕ}

/-! ### Inert steps -/

/-- From `w` to `w'` nothing is done in the name of control `c`: no null `peer_` is
dereferenced, no entry is added, no negotiation is started and nothing is delivered. -/
structure Silent (c : ℕ) (w w' : World) : Prop where
  fault : w'.fault = some .nullObserver → w.fault = some .nullObserver
  entries : ∀ k x, (w'.controls c).peers.find? k = some x → (w.controls c).peers.find? k = some x
  roles : ∀ x, x < w'.nextInst → (w'.insts x).role.isSome = true →
    x < w.nextInst ∧ (w.insts x).role = (w'.insts x).role
  obs : w'.obs = w.obs

theorem Silent.refl (c : ℕ) (w : World) : Silent c w w := ⟨id, fun _ _ => id, fun _ h _ => ⟨h, rfl⟩, rfl⟩

theorem Silent.trans {w'' : World} (h : Silent c w w') (h' : Silent c w' w'') : Silent c w w'' where
  fault hf := h.fault (h'.fault hf)
  entries k x hx := h.entries k x (h'.entries k x hx)
  roles x hx hr := by
    obtain ⟨hx', hr'⟩ := h'.roles x hx hr
    obtain ⟨hx'', hr''⟩ := h.roles x hx' (hr' ▸ hr)
    exact ⟨hx'', hr''.trans hr'⟩
  obs := h'.obs.trans h.obs

/-- What happens after the local close: a step of the world, or another message for
the control, which nobody can post once it is destroyed. -/
inductive Later where
  | step (a : Action)
  | post (id : MessageId) (data : MessageData) (origin : Option ℕ)

def later (env : Env) (c : ℕ) (w : World) : Later → World
  | .step a => w.step env a
  | .post id data origin =>
    if w.fault.isSome ∨ (w.controls c).destroyed = true then w else w.post c id data origin

/-- The step does nothing in the name of `c` when it processes a message of `c`. -/
def InertStep (env : Env) (c : ℕ) (w : World) : Later → Prop
  | .step .process => ∀ m ∈ w.queue.head?, m.handler = c → Silent c w (w.step env .process)
  | _ => True

/-- A message that is not `channelcreate`, no refused or malformed `channeljoin`,
and that starts no connection. -/
def HarmlessMessage (env : Env) (w : World) (m : Message) : Prop :=
  m.messageId = .commandReceived → ∀ p ∈ parseCommand env m.data.dataJson,
    p.1 ≠ "channelcreate" ∧ (p.1 = "channeljoin" → refusedId env p.2.2 "" = none) ∧
      startedIds env w m = []

instance (env : Env) (w : World) (m : Message) : Decidable (HarmlessMessage env w m) := by
  unfold HarmlessMessage
  infer_instance

/-- The message of `c` that the step processes is harmless. -/
def HarmlessStep (env : Env) (c : ℕ) (w : World) : Later → Prop
  | .step .process => w.fault = none → ∀ m ∈ w.queue.head?, m.handler = c → HarmlessMessage env w m
  | _ => True

instance (env : Env) (c : ℕ) (w : World) : (l : Later) → Decidable (HarmlessStep env c w l)
  | .step .process => inferInstanceAs (Decidable (w.fault = none →
      ∀ m ∈ w.queue.head?, m.handler = c → HarmlessMessage env w m))
  | .step (.api _) => inferInstanceAs (Decidable True)
  | .step (.command _ _) => inferInstanceAs (Decidable True)
  | .step (.net _) => inferInstanceAs (Decidable True)
  | .step (.callback _ _) => inferInstanceAs (Decidable True)
  | .post _ _ _ => inferInstanceAs (Decidable True)

/-! ### The handlers without an observer -/

theorem observeIfSet_unset (hc : (w.controls c).observer = false) (source : Option ℕ) (e : Event) :
    w.observeIfSet env c source e = w := by
  unfold observeIfSet
  rw [if_neg (by simp [hc])]

theorem observe_unset (hf : w.fault = none) (hc : (w.controls c).observer = false)
    (source : Option ℕ) (e : Event) : w.observe env c source e = w.crash .nullObserver := by
  unfold observe
  rw [if_neg (by simp [hf]), if_neg (by simp [hc])]

/-- A change of the queue, the signal connection, the commands and the session id. -/
theorem Silent.of_same (hs : SameRegistry w w') (ho : w'.obs = w.obs)
    (hf : w'.fault = some .nullObserver → w.fault = some .nullObserver) : Silent c w w' where
  fault := hf
  entries k x hx := hs.peers c ▸ hx
  roles x hx hr := ⟨hs.nextInst ▸ hx, by rw [hs.insts]⟩
  obs := ho

theorem sendCommand_silent (d : ℕ) (source : Option ℕ) (channel command : String) (data : Json)
    (w : World) : Silent d w (w.sendCommand source channel command data) := by
  unfold sendCommand
  split
  · exact Silent.refl d w
  · exact Silent.of_same ⟨rfl, rfl, fun _ => rfl, fun _ => rfl⟩ rfl id

theorem post_silent (d e : ℕ) (id : MessageId) (data : MessageData) (origin : Option ℕ) (w : World) :
    Silent d w (w.post e id data origin) := by
  unfold post
  split_ifs
  · exact Silent.of_same ⟨rfl, rfl, fun _ => rfl, fun _ => rfl⟩ rfl fun h => h
  · exact Silent.of_same ⟨rfl, rfl, fun _ => rfl, fun _ => rfl⟩ rfl fun h => by cases h

theorem crash_silent {f : Fault} (hf : f ≠ .nullObserver) (d : ℕ) (w : World) :
    Silent d w (w.crash f) :=
  Silent.of_same ⟨rfl, rfl, fun _ => rfl, fun _ => rfl⟩ rfl fun h => absurd (Option.some.inj h) hf

/-- What an instance of an unobserved control does is silent, except for its own
crashes. -/
theorem perform_silent {x : ℕ} {f : Effect} (hx : (w.insts x).control = c)
    (hc : (w.controls c).observer = false) (hok : f.Ok (w.insts x)) :
    Silent c w (w.perform env x f) := by
  have dangling := crash_silent (f := .danglingControl) (by decide) c w
  have event (e : Event) : Silent c w (if (w.controls (w.insts x).control).destroyed then
      w.crash .danglingControl else w.observeIfSet env (w.insts x).control (some x) e) := by
    split_ifs
    · exact dangling
    · rw [hx, observeIfSet_unset hc]
      exact Silent.refl c w
  unfold perform
  split_ifs
  · exact Silent.refl c w
  cases f with
  | sendCommand peerId command data =>
    dsimp only
    split_ifs
    · exact dangling
    · exact sendCommand_silent c _ _ _ _ w
  | closePeer peerId code =>
    dsimp only
    split_ifs
    · exact dangling
    · exact post_silent c _ _ _ _ w
  | onPeerConnect peerId => exact event _
  | onPeerClose peerId code => exact event _
  | onPeerMessage peerId data => exact event _
  | onPeerWritable peerId => exact event _
  | crash f => exact hok.elim
  | removed => exact Silent.refl c w
  | closing => exact Silent.refl c w
  | opened state => exact Silent.refl c w
  | answered origin => exact Silent.refl c w

theorem performs_silent {x : ℕ} {fs : List Effect} (hl : ChannelsSet w) (hlt : c < w.nextControl)
    (hx : (w.insts x).control = c) (hc : (w.controls c).observer = false)
    (hok : ∀ f ∈ fs, f.Ok (w.insts x)) : Silent c w (fs.foldl (perform env x) w) := by
  induction fs generalizing w with
  | nil => exact Silent.refl c w
  | cons f fs ih =>
    have h : Calls env (fun _ _ => True) (fun _ _ => True) w (w.perform env x f) :=
      perform_calls hl trivial (hok f List.mem_cons_self) fun _ _ => trivial
    have hinsts := h.same.insts
    refine (perform_silent hx hc (hok f List.mem_cons_self)).trans (ih (hl.same h.same)
      (hlt.trans_le h.grows.controls) (by rw [hinsts, hx]) (h.grows.observers c hlt hc) fun g hg => ?_)
    rw [hinsts]
    exact hok g (List.mem_cons_of_mem f hg)

/-- Replacing an instance by one with the same role. -/
theorem setInst_silent (x : ℕ) {p : PeerControl} (hp : p.role = (w.insts x).role) (d : ℕ) :
    Silent d w (w.setInst x p) where
  fault := id
  entries _ _ := id
  roles y hy _ := by
    refine ⟨hy, ?_⟩
    by_cases hyx : y = x
    · rw [hyx, setInst_insts_self, hp]
    · rw [setInst_insts_ne hyx]
  obs := rfl

/-- An object that was never started. -/
theorem newInst_silent {p : PeerControl} (hp : p.role = none) (d : ℕ) : Silent d w (w.newInst p) where
  fault := id
  entries _ _ := id
  roles y hy hr := by
    by_cases hyx : y = w.nextInst
    · rw [hyx, newInst_insts_self, hp] at hr
      cases hr
    · have hlt : y < w.nextInst := by
        have : y < w.nextInst + 1 := hy
        omega
      rw [newInst_insts_lt hlt]
      exact ⟨hlt, rfl⟩
  obs := rfl

theorem closePeer_silent (hw : Sound env w) (hlt : c < w.nextControl)
    (hc : (w.controls c).observer = false) (code : CloseCode) (k : String) :
    Silent c w (w.closePeer env c code k) := by
  cases hx : (w.controls c).peers.find? k with
  | none =>
    simp only [closePeer, hx]
    exact Silent.refl c w
  | some x =>
    obtain ⟨hs, hok⟩ := removePeer_effects env (hw.entries c k x hx).live c k code
    have hg := removePeer_grows env c k x code w
    have hremoved : Silent c w (w.removePeer env c k x code) := by
      have herase : Silent c w (w.modifyControl c fun q => { q with peers := q.peers.erase k }) := by
        refine ⟨id, fun k' y hy => ?_, fun y hy _ => ⟨hy, rfl⟩, rfl⟩
        rw [erase_find?] at hy
        split_ifs at hy
        exact hy
      have hrole := hs.role
      rw [show (w.removePeer env c k x code).insts x = _ from setInst_insts_self _ _ _] at hrole
      exact herase.trans (setInst_silent x (by exact hrole) c)
    have hperformed : Silent c _ ((removeEffects env x code w).foldl (perform env x) _) :=
      performs_silent (hw.removePeer hx code).channelsSet (hlt.trans_le hg.controls)
        (hs.control.trans (hw.entries c k x hx).control) (hg.observers c hlt hc) hok
    simp only [closePeer, hx]
    exact (hremoved.trans hperformed).trans (sendCommand_silent c _ _ _ _ _)

theorem close_silent (hw : Sound env w) (hlt : c < w.nextControl)
    (hc : (w.controls c).observer = false) (code : CloseCode) :
    Silent c w (w.close env c code) := by
  have hfold (ids : List String) : ∀ {w : World}, Sound env w → c < w.nextControl →
      (w.controls c).observer = false → Silent c w (ids.foldl (closePeer env c code) w) ∧
        ((ids.foldl (closePeer env c code) w).controls c).observer = false := by
    induction ids with
    | nil => exact fun _ _ hc => ⟨Silent.refl c _, hc⟩
    | cons id ids ih =>
      intro w hw hlt hc
      have ht : Ticks env .free w (w.closePeer env c code id) :=
        closePeer_ticks hw c code id fun _ _ _ => trivial
      obtain ⟨h, hc'⟩ := ih (ht.sound hw) (hlt.trans_le ht.grows.controls)
        (ht.grows.observers c hlt hc)
      exact ⟨(closePeer_silent hw hlt hc code id).trans h, hc'⟩
  obtain ⟨h, hc'⟩ := hfold ((w.controls c).peers.entries.map fun e => (w.insts e.2).remoteId) hw hlt hc
  unfold close
  dsimp only
  rw [observeIfSet_unset hc']
  exact h

theorem reject_silent (hc : (w.controls c).observer = false) {remoteId : String}
    (failed : (env.initOutcome w.nextInst).ok = false) :
    Silent c w (w.reject env c (newPeer env c remoteId w).1) := by
  unfold reject onPeerClose
  rw [observeIfSet_unset (by exact hc)]
  refine newInst_silent ?_ c
  rw [newPeer_failed failed]
  rfl

/-- A list of offers that starts nothing ends at its first item. -/
theorem createOffers_silent (hc : (w.controls c).observer = false) (items : List (Option Json))
    (hnone : (offered env w.nextInst items).1 = []) : Silent c w (createOffers env c items w) := by
  cases items with
  | nil => exact Silent.refl c w
  | cons item items =>
    simp only [createOffers]
    simp only [offered] at hnone
    split
    · exact Silent.refl c w
    next remoteId hitem =>
      rw [hitem] at hnone
      dsimp only at hnone
      split_ifs at hnone with ok
      have failed : (env.initOutcome w.nextInst).ok = false := by simpa using ok
      rw [if_neg (by rw [newPeer_failed failed]; exact Bool.false_ne_true)]
      exact reject_silent hc failed

theorem receiveOfferSdp_silent (hc : (w.controls c).observer = false) (peerId : String) (data : Json)
    (origin : Option ℕ) (hnone : (planned env w.nextInst "offersdp" peerId data).1 = []) :
    Silent c w (w.receiveOfferSdp env c peerId data origin) := by
  simp only [planned, String.reduceEq, if_true, if_false] at hnone
  unfold receiveOfferSdp
  split
  · exact Silent.refl c w
  next sdp hsdp =>
    rw [hsdp] at hnone
    dsimp only at hnone ⊢
    split_ifs at hnone with ok
    have failed : (env.initOutcome w.nextInst).ok = false := by simpa using ok
    rw [if_neg (by rw [newPeer_failed failed]; exact Bool.false_ne_true)]
    exact reject_silent hc failed

theorem receiveAnswerSdp_silent (hw : Sound env w) (peerId : String) (data : Json)
    (origin : Option ℕ) : Silent c w (w.receiveAnswerSdp env c peerId data origin) := by
  unfold receiveAnswerSdp
  split
  · exact Silent.refl c w
  · split
    · exact Silent.refl c w
    next x hx =>
      have hl := (hw.entries c peerId x hx).live
      simp only [runPeer, hl.receiveAnswerSdp_eq, List.foldl_cons, List.foldl_nil]
      unfold perform
      split_ifs
      · exact setInst_silent x (by rfl) c
      · exact setInst_silent x (by rfl) c

theorem addIceCandidate_silent (hw : Sound env w) (peerId : String) (data : Json) :
    Silent c w (w.addIceCandidate env c peerId data) := by
  unfold addIceCandidate
  split
  · split
    · exact Silent.refl c w
    next x hx =>
      have hl := (hw.entries c peerId x hx).live
      simp only [runPeer, hl.addIceCandidate_eq, List.foldl_nil]
      exact setInst_silent x (by rfl) c
  · exact Silent.refl c w

theorem onOpen_silent (data : Json) : Silent c w (w.onOpen env c data) := by
  unfold onOpen
  split
  · split
    · exact Silent.refl c w
    · refine Silent.trans ?_ (sendCommand_silent c _ _ _ _ _)
      exact Silent.of_same (modifyControl_same c (fun _ => rfl) fun _ => rfl) rfl id
  · exact Silent.refl c w

/-- A reply that refuses nothing changes nothing. -/
theorem onChannelJoin_accepted {c : ℕ} {data : Json} (h : refusedId env data "" = none) :
    w.onChannelJoin env c data = w := by
  rcases onChannelJoin_cases w c data with ⟨id, desc, hid, -⟩ | ⟨-, he⟩
  · rw [h] at hid
    cases hid
  · exact he

theorem onMessage_silent (hw : Sound env w) {m : Message} (hlt : m.handler < w.nextControl)
    (hc : (w.controls m.handler).observer = false) (hm : HarmlessMessage env w m) :
    Silent m.handler w (w.onMessage env m) := by
  unfold onMessage
  dsimp only
  split
  next hid =>
    cases hp : parseCommand env m.data.dataJson with
    | none =>
      rw [onCommandReceived_none hp]
      exact Silent.refl _ w
    | some p =>
      obtain ⟨command, peerId, data⟩ := p
      obtain ⟨hcreate, hjoin, hnone⟩ := hm hid _ hp
      simp only [startedIds, hid, hp] at hnone
      dsimp only at hcreate hjoin
      apply onCommandReceived_cases (motive := Silent m.handler w) hp
      · exact fun _ => onOpen_silent data
      · exact fun h => absurd h hcreate
      · intro hj
        rw [onChannelJoin_accepted (hjoin hj)]
        exact Silent.refl _ w
      · exact fun _ => closePeer_silent hw hlt hc _ _
      · rintro rfl
        unfold createOffer
        simp only [planned, String.reduceEq, if_true, if_false] at hnone
        split
        · exact Silent.refl _ w
        next peers hpeers =>
          rw [hpeers] at hnone
          exact createOffers_silent hc _ hnone
      · rintro rfl
        exact receiveOfferSdp_silent hc _ data _ hnone
      · exact fun _ => receiveAnswerSdp_silent hw _ data _
      · exact fun _ => addIceCandidate_silent hw _ data
      · exact Silent.refl _ w
  · exact close_silent hw hlt hc _
  · exact closePeer_silent hw hlt hc _ _
  · unfold onPeerClose
    rw [observeIfSet_unset hc]
    exact Silent.refl _ w
  · exact close_silent hw hlt hc _

theorem releases_silent (c : ℕ) (w : World) : Silent c w w.releaseControls.releaseInsts where
  fault := id
  entries _ _ hx := releaseControls_find? hx
  roles x hx _ := by
    refine ⟨hx, ?_⟩
    rw [releaseInsts_keeps (·.role) fun _ => rfl]
    rfl
  obs := rfl

/-! ### Messages that are not harmless -/

/-- The step dereferences the null `peer_`, or the next instance is started. -/
def Harmed (w w' : World) : Prop :=
  w'.fault = some .nullObserver ∨
    (w.nextInst < w'.nextInst ∧ (w'.insts w.nextInst).role.isSome = true)

theorem Harmed.not_silent (h : Harmed w w') (hf : w.fault = none) : ¬ Silent c w w' := by
  intro hs
  rcases h with h | ⟨hlt, hr⟩
  · rw [hs.fault h] at hf
    cases hf
  · exact Nat.lt_irrefl _ (hs.roles _ hlt hr).1

theorem Harmed.releases (h : Harmed w w') : Harmed w w'.releaseControls.releaseInsts := by
  refine h.imp id fun ⟨hlt, hr⟩ => ⟨hlt, ?_⟩
  rw [releaseInsts_keeps (·.role) fun _ => rfl]
  exact hr

theorem onChannelCreate_harmed (hf : w.fault = none) (hc : (w.controls c).observer = false)
    (data : Json) : Harmed w (w.onChannelCreate env c data) := by
  left
  rcases onChannelCreate_cases w c data with ⟨id, desc, -, he⟩ | ⟨id, -, he⟩
  · rw [he, observe_unset hf hc]
    rfl
  · rw [he, observe_unset hf hc]
    rfl

theorem onChannelJoin_harmed (hf : w.fault = none) (hc : (w.controls c).observer = false)
    {data : Json} (hr : refusedId env data "" ≠ none) : Harmed w (w.onChannelJoin env c data) := by
  left
  rcases onChannelJoin_cases w c data with ⟨id, desc, -, he⟩ | ⟨hn, -⟩
  · rw [he, observe_unset hf hc]
    rfl
  · exact absurd hn hr

theorem register_harmed {p : PeerControl} (hp : p.role.isSome = true) : Harmed w (w.register c p) := by
  refine Or.inr ⟨Nat.lt_succ_self _, ?_⟩
  rw [register_insts, newInst_insts_self]
  exact hp

/-- The rest of the loop leaves the objects that are already there. -/
theorem createOffers_keeps (env : Env) (hc : (w.controls c).observer = false)
    (items : List (Option Json)) :
    w.nextInst ≤ (createOffers env c items w).nextInst ∧
      ∀ x, x < w.nextInst → (createOffers env c items w).insts x = w.insts x := by
  induction items generalizing w with
  | nil => exact ⟨le_rfl, fun _ _ => rfl⟩
  | cons item items ih =>
    simp only [createOffers]
    split
    · exact ⟨le_rfl, fun _ _ => rfl⟩
    next remoteId _ =>
      split_ifs
      · obtain ⟨hn, hi⟩ := ih (w := w.register c (newPeer env c remoteId w).1.createOffer)
          ((register_keeps (·.observer) (fun _ _ => rfl) _ _ _ _).trans hc)
        have hsucc : w.nextInst + 1 ≤ _ := hn
        refine ⟨by omega, fun x hx => ?_⟩
        rw [hi x (Nat.lt_succ_of_lt hx), register_insts, newInst_insts_lt hx]
      · unfold reject onPeerClose
        rw [observeIfSet_unset (by exact hc)]
        exact ⟨Nat.le_succ _, fun x hx => newInst_insts_lt hx⟩

theorem createOffers_harmed (hc : (w.controls c).observer = false) {items : List (Option Json)}
    (hsome : (offered env w.nextInst items).1 ≠ []) : Harmed w (createOffers env c items w) := by
  cases items with
  | nil => exact absurd rfl hsome
  | cons item items =>
    simp only [createOffers]
    simp only [offered] at hsome
    split
    next hitem =>
      rw [hitem] at hsome
      exact absurd rfl hsome
    next remoteId hitem =>
      rw [hitem] at hsome
      dsimp only at hsome
      split_ifs at hsome with ok
      · rw [if_pos (by rw [newPeer_ok ok])]
        obtain ⟨hn, hi⟩ := createOffers_keeps env
          (w := w.register c (newPeer env c remoteId w).1.createOffer)
          ((register_keeps (·.observer) (fun _ _ => rfl) _ _ _ _).trans hc) items
        have hsucc : w.nextInst + 1 ≤ _ := hn
        refine Or.inr ⟨by omega, ?_⟩
        rw [hi _ (Nat.lt_succ_self _), register_insts, newInst_insts_self, newPeer_ok ok]
        rfl
      · exact absurd rfl hsome

theorem onMessage_harmed {m : Message} (hf : w.fault = none)
    (hc : (w.controls m.handler).observer = false) (hm : ¬ HarmlessMessage env w m) :
    Harmed w (w.onMessage env m) := by
  simp only [HarmlessMessage, Classical.not_imp, not_forall] at hm
  obtain ⟨hid, ⟨command, peerId, data⟩, hp, hm⟩ := hm
  replace hp : parseCommand env m.data.dataJson = some (command, peerId, data) := hp
  simp only [onMessage, hid, onCommandReceived_some hp]
  simp only [startedIds, hid, hp] at hm
  by_cases hcreate : command = "channelcreate"
  · subst hcreate
    exact onChannelCreate_harmed hf hc data
  by_cases hjoin : command = "channeljoin" ∧ refusedId env data "" ≠ none
  · obtain ⟨rfl, hr⟩ := hjoin
    exact onChannelJoin_harmed hf hc hr
  have hsome : (planned env w.nextInst command peerId data).1 ≠ [] := fun hnone =>
    hm ⟨hcreate, fun hj => by_contra fun hr => hjoin ⟨hj, hr⟩, hnone⟩
  unfold planned at hsome
  by_cases ho : command = "createoffer"
  · subst ho
    simp only [String.reduceEq, if_true, if_false, createOffer] at hsome ⊢
    split
    next h =>
      rw [h] at hsome
      exact absurd rfl hsome
    next peers h =>
      rw [h] at hsome
      exact createOffers_harmed hc hsome
  rw [if_neg ho] at hsome
  by_cases hs : command = "offersdp"
  · subst hs
    simp only [String.reduceEq, if_true, if_false, receiveOfferSdp] at hsome ⊢
    split
    next h =>
      rw [h] at hsome
      exact absurd rfl hsome
    next sdp h =>
      rw [h] at hsome
      dsimp only at hsome
      by_cases ok : (env.initOutcome w.nextInst).ok = true
      · rw [if_pos (by rw [newPeer_ok ok])]
        refine register_harmed ?_
        rw [newPeer_ok ok]
        rfl
      · rw [if_neg ok] at hsome
        exact absurd rfl hsome
  · rw [if_neg hs] at hsome
    exact absurd rfl hsome

/-! ### Runs after the local close -/

/-- Control `c` has lost its observer. -/
structure Closed (env : Env) (c : ℕ) (w : World) : Prop extends Reached env w where
  born : c < w.nextControl
  unset : (w.controls c).observer = false

theorem Closed.later (h : Closed env c w) (l : Later) : Closed env c (later env c w l) := by
  cases l with
  | step a =>
    have hr := h.toReached.step a
    rcases step_ticks h.toReached (admitted_free env w a) with hs | ⟨-, ht, hs⟩
    · simp only [World.later, hs]
      exact h
    · refine ⟨hr, ?_, ?_⟩
      · simp only [World.later, hs]
        exact h.born.trans_le ht.grows.controls
      · simp only [World.later, hs]
        exact (releaseControls_keeps (·.observer) (fun _ => rfl) c).trans
          (ht.grows.observers c h.born h.unset)
  | post id data origin =>
    simp only [World.later]
    split_ifs
    · exact h
    · unfold World.post
      split_ifs with ht
      · exact ⟨⟨h.toSound.post ht, h.settled⟩, h.born, h.unset⟩
      · exact ⟨⟨{ h.toSound with fault := fun f hf => by cases hf; simp [Fault.Outside] },
          h.settled⟩, h.born, h.unset⟩

theorem inertStep_iff (h : Closed env c w) (l : Later) :
    InertStep env c w l ↔ HarmlessStep env c w l := by
  rcases l with (_ | _ | _ | _ | _) | _
  case step.process =>
    simp only [InertStep, HarmlessStep]
    cases hq : w.queue with
    | nil => simp
    | cons m queue =>
      simp only [List.head?_cons, Option.mem_some_iff, forall_eq']
      by_cases hf : w.fault = none
      · have hstep : w.step env .process =
            ({ w with queue := queue }.onMessage env m).releaseControls.releaseInsts := by
          simp only [World.step, act, process, hq]
          rw [if_neg (by simp [hf])]
        have hqueue (q : List Message) (w : World) : Silent c { w with queue := q } w :=
          Silent.of_same ⟨rfl, rfl, fun _ => rfl, fun _ => rfl⟩ rfl id
        rw [hstep]
        refine ⟨fun hs _ hm => ?_, fun hs hm => ?_⟩
        · subst hm
          by_contra hm
          exact (onMessage_harmed (w := { w with queue := queue }) hf h.unset hm).releases.not_silent
            hf ((hqueue queue w).trans (hs rfl))
        · subst hm
          have hd : Tick env .free w { w with queue := queue } := .dequeued w m queue hq
          have hdequeued : Silent m.handler w { w with queue := queue } :=
            hqueue w.queue { w with queue := queue }
          exact (hdequeued.trans (onMessage_silent (hd.sound h.toSound) h.born h.unset
            (hs hf rfl))).trans (releases_silent _ _)
      · have hstep : w.step env .process = w := by
          unfold World.step
          rw [if_pos (Option.isSome_iff_ne_none.mpr hf)]
        rw [hstep]
        exact ⟨fun _ h => absurd h hf, fun _ _ => Silent.refl c w⟩
  all_goals exact Iff.rfl

/-- After the local close, whatever happens and is posted: processing the messages of
the control is inert throughout exactly if each of them is harmless. -/
theorem closed_inert_iff (env : Env) (as : List Action) (c : ℕ)
    (born : c < (run (step env) init as).nextControl)
    (unset : ((run (step env) init as).controls c).observer = false) (ls : List Later) :
    Along (later env c) (InertStep env c) (run (step env) init as) ls ↔
      Along (later env c) (HarmlessStep env c) (run (step env) init as) ls := by
  have h : Closed env c (run (step env) init as) := ⟨reached_run env as, born, unset⟩
  generalize run (step env) init as = w at h
  induction ls generalizing w with
  | nil => exact Iff.rfl
  | cons l ls ih => exact and_congr (inertStep_iff h l) (ih _ (h.later l))

def politeA : Env := Env.polite "a" Env.alone_ne

/-- The user closes the peer, the network thread posts a command behind the close
message, and the close message is processed. -/
def closedBefore (command : Json) : List Action :=
  [.api .open, .net (.connectInternal true), .net (.onOpen 0), .api (.close "a"),
    .command command none, .process]

def afterClose (command : Json) : World := run (step politeA) init (closedBefore command)

/-- A lost peer and a late request are processed without effect. -/
theorem closed_inert_iff_peerclosed :
    Along (later politeA 0) (InertStep politeA 0)
      (run (step politeA) init (closedBefore (serverMessage "peerclosed" "b" (.obj []))))
      [.post .closePeer { dataString := "b" } none, .step .process, .step .process] :=
  (closed_inert_iff politeA (closedBefore (serverMessage "peerclosed" "b" (.obj []))) 0
    (by decide +kernel) (by decide +kernel) _).mpr (by decide +kernel)

theorem not_inertStep (hm : w.queue.head?.map (·.handler) = some c) (hf : w.fault = none)
    (h : Harmed w (w.step env .process)) : ¬ InertStep env c w (.step .process) := by
  obtain ⟨m, hm, hc⟩ := Option.map_eq_some_iff.mp hm
  exact fun hs => h.not_silent hf (hs m hm hc)

/-- The late reply dereferences the null `peer_`, and a late request for an offer
starts a connection and registers it. -/
theorem closed_not_inert :
    (0 < (afterClose (channelCreateMessage "a" true)).nextControl ∧
      ((afterClose (channelCreateMessage "a" true)).controls 0).observer = false ∧
      ¬ Along (later politeA 0) (InertStep politeA 0)
        (afterClose (channelCreateMessage "a" true)) [.step .process]) ∧
    0 < (afterClose (createOfferMessage ["b"])).nextControl ∧
      ((afterClose (createOfferMessage ["b"])).controls 0).observer = false ∧
      ¬ Along (later politeA 0) (InertStep politeA 0) (afterClose (createOfferMessage ["b"]))
        [.step .process] := by
  refine ⟨⟨by decide +kernel, by decide +kernel, fun h => ?_⟩,
    by decide +kernel, by decide +kernel, fun h => ?_⟩
  · exact not_inertStep (by decide +kernel) (by decide +kernel) (Or.inl (by decide +kernel)) h.1
  · exact not_inertStep (by decide +kernel) (by decide +kernel) (Or.inr (by decide +kernel)) h.1

end PeerApi.World
