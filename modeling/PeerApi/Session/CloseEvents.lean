import PeerApi.Session.Ownership

/-! What a close event says about `peers_`. `ClosePeer` takes the entry out before
the object reports its close. The other paths only report: a refused channel and an
`Initialize` that failed raise the close event of an id without looking whether an
older connection is registered under it. So the event means that the peer is gone
exactly when the reported id has no entry, and was not started by the same command.

The registry at the end of the action tells what it was at the event: an entry that
`ClosePeer` takes out is gone from then on (`removed_gone`), and a report that leaves
the entries alone is the last thing that its message does (`onMessage_reports`). -/

namespace PeerApi.World

open Base Relation

variable {env : Env} {w : World}

/-- What is observed during the action. -/
def newObs (env : Env) (w : World) (a : Action) : List Obs := (w.act env a).obs.drop w.obs.length

/-- Every close event of a remote id leaves the id without an entry. -/
def ClosesGone (env : Env) (w : World) (a : Action) : Prop :=
  ∀ c source r code desc, .observer c source (.close r code desc) ∈ newObs env w a →
    r ≠ env.peerId → ((w.act env a).controls c).peers.find? r = none

/-- The ids that a message reports as closed without taking them out of `peers_`. -/
def reportedIds (env : Env) (w : World) (m : Message) : List String :=
  match m.messageId with
  | .commandReceived =>
    match parseCommand env m.data.dataJson with
    | none => []
    | some (command, peerId, data) =>
      if command = "peerclosed" then [] else commandCloses env w m.handler command peerId data
  | .onPeerClose => [m.data.dataString]
  | _ => []

/-- A remote id that is reported has no entry and gets none by the same message. -/
def Unregistered (env : Env) (w : World) : Action → Prop
  | .process => ∀ m ∈ w.queue.head?, (w.controls m.handler).observer = true →
      ∀ r ∈ reportedIds env w m, r ≠ env.peerId →
        (w.controls m.handler).peers.find? r = none ∧ r ∉ startedIds env w m
  | _ => True

instance (env : Env) (w : World) : (a : Action) → Decidable (Unregistered env w a)
  | .process => inferInstanceAs (Decidable (∀ m ∈ w.queue.head?,
      (w.controls m.handler).observer = true → ∀ r ∈ reportedIds env w m, r ≠ env.peerId →
        (w.controls m.handler).peers.find? r = none ∧ r ∉ startedIds env w m))
  | .api _ => inferInstanceAs (Decidable True)
  | .command _ _ => inferInstanceAs (Decidable True)
  | .net _ => inferInstanceAs (Decidable True)
  | .callback _ _ => inferInstanceAs (Decidable True)

/-! ### Unregistered reports -/

/-- The handler raises close events of the given ids only, and starts only ids that
it names. -/
def messageGuard (c : ℕ) (closed started : List String) : Guard where
  raises d e := d = c ∧ ∀ id, e.Closes id → id ∈ closed
  report _ _ _ := True
  receives _ _ := True
  offers _ := True
  origin _ _ _ := True
  starts _ d ids := d = c ∧ ids ⊆ started
  starts_register _ h := ⟨h.1, fun _ hid => h.2 (List.mem_cons_of_mem _ hid)⟩

theorem newObs_raised {G : Guard} {a : Action} (h : Ticks env G w (w.act env a)) {c : ℕ}
    {source : Option ℕ} {e : Event} (he : .observer c source e ∈ newObs env w a) :
    G.raises c e ∧ (c < w.nextControl → (w.controls c).observer = true) := by
  obtain ⟨os, hos, ho⟩ := h.raised
  rw [newObs, hos, List.drop_left] at he
  exact ho _ he c source e rfl

/-- What a message reports as closed is removed by it, reported only, or the peer
itself. -/
theorem mem_closedIds (hw : Sound env w) {m : Message}
    (hc : (w.controls m.handler).thread = true) {r : String} (hr : r ∈ closedIds env w m) :
    r = env.peerId ∨ r ∈ removedIds env w m ∨ r ∈ reportedIds env w m := by
  unfold closedIds at hr
  unfold removedIds reportedIds
  cases hm : m.messageId with
  | commandReceived =>
    simp only [hm] at hr ⊢
    cases hp : parseCommand env m.data.dataJson with
    | none => simp [hp] at hr
    | some p =>
      obtain ⟨command, peerId, data⟩ := p
      simp only [hp] at hr ⊢
      by_cases hcmd : command = "peerclosed"
      · subst hcmd
        simp only [commandCloses, String.reduceEq, if_false, if_true] at hr ⊢
        split_ifs at hr
        · exact Or.inr (Or.inl hr)
        · cases hr
      · rw [if_neg hcmd, if_neg hcmd]
        exact Or.inr (Or.inr hr)
  | closePeer =>
    simp only [hm] at hr ⊢
    split_ifs at hr
    · exact Or.inr (Or.inl hr)
    · cases hr
  | onPeerClose =>
    simp only [hm] at hr ⊢
    exact Or.inr (Or.inr hr)
  | close =>
    simp only [hm, List.mem_cons] at hr ⊢
    exact hr.imp (fun h => h.trans (hw.named _ hc)) Or.inl
  | onSignalConnectionClose =>
    simp only [hm, List.mem_cons] at hr ⊢
    exact hr.imp (fun h => h.trans (hw.named _ hc)) Or.inl

theorem closesGone_process (hw : Reached env w) {m : Message} {queue : List Message}
    (hq : w.queue = m :: queue) (h : Unregistered env w .process) :
    ClosesGone env w .process := by
  have hthread := hw.queued m (by rw [hq]; exact List.mem_cons_self)
  have hadm : Admitted env (messageGuard m.handler (closedIds env w m) (startedIds env w m)) w
      .process := by
    intro m' queue' hq'
    obtain ⟨rfl, rfl⟩ : m = m' ∧ queue = queue' := by simpa [hq] using hq'
    exact ⟨⟨rfl, List.Subset.refl _⟩, fun e he => ⟨rfl, he⟩, fun _ _ _ _ _ _ => trivial,
      fun _ _ _ _ _ => trivial⟩
  have ht := act_ticks hw hadm
  intro c source r code desc hobs hr
  obtain ⟨⟨rfl, hid⟩, hset⟩ := newObs_raised ht hobs
  by_contra hne
  obtain ⟨x, hx⟩ := Option.ne_none_iff_exists'.mp hne
  rcases mem_closedIds hw.toSound hthread (hid r rfl) with h1 | h1 | h1
  · exact hr h1
  · have hs : Sound env { w with queue := queue } :=
      (Tick.dequeued w m queue hq : Tick env .free w _).sound hw.toSound
    have hgone : (((World.onMessage env { w with queue := queue } m)).controls
        m.handler).peers.find? r = none := onMessage_removes hs h1
    simp only [act, process, hq] at hx
    rw [hgone] at hx
    cases hx
  · obtain ⟨hnone, hstart⟩ := h m (by simp [hq]) (hset (hw.thread_lt hthread)) r h1 hr
    have hstarts : ∀ {w' : World} {d : ℕ} {id : String} {ids : List String},
        (messageGuard m.handler (closedIds env w m) (startedIds env w m)).starts w' d (id :: ids) →
          id ∈ startedIds env w m := fun h => h.2 List.mem_cons_self
    rcases ht.find? (A := fun _ k => k ∈ startedIds env w m) hstarts hx with hold | hstarted
    · rw [hnone] at hold
      cases hold
    · exact hstart hstarted

/-- No other action raises a close event. -/
theorem closesGone_of_other (hw : Reached env w) {a : Action} {c : ℕ}
    (ha : Admitted env (messageGuard c [] []) w a) : ClosesGone env w a := by
  intro d source r code desc hobs
  obtain ⟨⟨-, hid⟩, -⟩ := newObs_raised (act_ticks hw ha) hobs
  cases hid r rfl

/-! ### The entry at the event -/

/-- What has an entry, or is started, has one in the end. -/
def Registers (c : ℕ) (started : List String) (w w' : World) : Prop :=
  ∀ k, (w.controls c).peers.find? k ≠ none ∨ k ∈ started → (w'.controls c).peers.find? k ≠ none

/-- The last thing that happens is that control `c` reports `r` as closed, in `w₁`; by
then everything is registered that is in the end. -/
structure ReportsIn (env : Env) (c : ℕ) (r : String) (started : List String) (w w₁ w' : World) :
    Prop where
  report : ∃ code desc, w' = w₁.observe env c none (.close r code desc)
  running : w₁.fault = none
  attended : (w₁.controls c).observer = true
  obs : w₁.obs = w.obs
  registers : Registers c started w w₁
  same : SameRegistry w₁ w'

def ReportsLast (env : Env) (c : ℕ) (r : String) (started : List String) (w w' : World) : Prop :=
  ∃ w₁, ReportsIn env c r started w w₁ w'

variable {c : ℕ} {r : String}

theorem ReportsLast.registers {started : List String} {w' : World}
    (h : ReportsLast env c r started w w') : Registers c started w w' := by
  obtain ⟨w₁, h⟩ := h
  intro k hk
  rw [h.same.peers]
  exact h.registers k hk

theorem ReportsLast.observed {started : List String} {w' : World}
    (h : ReportsLast env c r started w w') :
    ∃ source code desc, w.obs ++ [.observer c source (.close r code desc)] <+: w'.obs := by
  obtain ⟨w₁, h⟩ := h
  obtain ⟨code, desc, rfl⟩ := h.report
  exact ⟨none, code, desc, h.obs ▸ observe_obs env none _ h.running h.attended⟩

/-! ### Registered reports -/

theorem observe_same (hl : ChannelsSet w) (code : CloseCode) (desc : String) :
    SameRegistry w (w.observe env c none (.close r code desc)) := by
  have h : Calls env (fun _ _ => True) nobody w (w.observe env c none (.close r code desc)) :=
    observe_calls hl (Or.inr ⟨_, _, _, rfl⟩) trivial
  exact h.same

/-- An object that could not be started is dropped and reported. -/
theorem reject_eq (hset : (w.controls c).observer = true)
    (failed : (env.initOutcome w.nextInst).ok = false) :
    w.reject env c (newPeer env c r w).1 =
      (w.newInst (newPeer env c r w).1).observe env c none (.close r .abnormal "") := by
  have hid : (newPeer env c r w).1.remoteId = r := by rw [newPeer_failed failed]; rfl
  unfold reject onPeerClose observeIfSet
  rw [if_pos (by exact hset), hid]
  rfl

theorem reject_reports (hw : Sound env w) (hc : (w.controls c).thread = true) (hf : w.fault = none)
    (hset : (w.controls c).observer = true) (failed : (env.initOutcome w.nextInst).ok = false) :
    ReportsLast env c r [] w (w.reject env c (newPeer env c r w).1) := by
  have ht : Tick env .free w (w.newInst (newPeer env c r w).1) := .rejected w c r hc failed
  rw [reject_eq hset failed]
  exact ⟨w.newInst (newPeer env c r w).1, ⟨.abnormal, "", rfl⟩, hf, hset, rfl,
    fun k hk => hk.resolve_right (by simp), observe_same (ht.sound hw).channelsSet .abnormal ""⟩

theorem createOffers_reports (hw : Sound env w) (hc : (w.controls c).thread = true)
    (hf : w.fault = none) (hset : (w.controls c).observer = true) {items : List (Option Json)}
    (hr : (offered env w.nextInst items).2 = some r) :
    ReportsLast env c r (offered env w.nextInst items).1 w (createOffers env c items w) := by
  induction items generalizing w with
  | nil => cases hr
  | cons item items ih =>
    simp only [offered] at hr ⊢
    simp only [createOffers]
    cases hitem : item.bind env.rtc.getStringFromJson with
    | none =>
      rw [hitem] at hr
      cases hr
    | some remoteId =>
      rw [hitem] at hr
      dsimp only at hr ⊢
      by_cases ok : (env.initOutcome w.nextInst).ok = true
      · rw [if_pos ok] at hr
        rw [if_pos ok, if_pos (by rw [newPeer_ok ok])]
        have ht : Tick env .free w (w.register c (newPeer env c remoteId w).1.createOffer) :=
          .registered w c _ [] hc (.offer remoteId ok trivial) trivial
        have hset' : ((w.register c (newPeer env c remoteId w).1.createOffer).controls c).observer =
            true := (register_keeps (·.observer) (fun _ _ => rfl) _ _ _ _).trans hset
        obtain ⟨w₁, h⟩ := ih (ht.sound hw) (ht.grows.threads c hc) hf hset' hr
        refine ⟨w₁, { h with registers := fun k hk => h.registers k ?_ }⟩
        have hid : (newPeer env c remoteId w).1.createOffer.remoteId = remoteId := by
          rw [newPeer_ok ok]; rfl
        rcases hk with hk | hk
        · left
          rw [register_find?]
          split_ifs
          · simp
          · exact hk
        · rcases List.mem_cons.mp hk with rfl | hk
          · left
            rw [register_find?, if_pos ⟨rfl, hid.symm⟩]
            simp
          · exact Or.inr hk
      · rw [if_neg ok] at hr
        have failed : (env.initOutcome w.nextInst).ok = false := by simpa using ok
        rw [if_neg ok, if_neg (by rw [newPeer_failed failed]; simp)]
        obtain rfl : remoteId = r := Option.some.inj hr
        exact reject_reports hw hc hf hset failed

theorem refusal_reports (hw : Sound env w) (hf : w.fault = none)
    (hset : (w.controls c).observer = true) (code : CloseCode) (desc : String) :
    ReportsLast env c r [] w (w.observe env c none (.close r code desc)) :=
  ⟨w, ⟨code, desc, rfl⟩, hf, hset, rfl, fun k hk => hk.resolve_right (by simp),
    observe_same hw.channelsSet code desc⟩

theorem onChannelCreate_reports (hw : Sound env w) (hf : w.fault = none)
    (hset : (w.controls c).observer = true) {data : Json}
    (hr : refusedId env data (w.controls c).peerName = some r) :
    ReportsLast env c r [] w (w.onChannelCreate env c data) := by
  rcases onChannelCreate_cases w c data with ⟨id, desc, hid, he⟩ | ⟨id, hid, he⟩
  · obtain rfl : id = r := Option.some.inj (hid.symm.trans hr)
    rw [he]
    exact refusal_reports hw hf hset _ desc
  · rw [hid] at hr
    cases hr

theorem onChannelJoin_reports (hw : Sound env w) (hf : w.fault = none)
    (hset : (w.controls c).observer = true) {data : Json} (hr : refusedId env data "" = some r) :
    ReportsLast env c r [] w (w.onChannelJoin env c data) := by
  rcases onChannelJoin_cases w c data with ⟨id, desc, hid, he⟩ | ⟨hid, he⟩
  · obtain rfl : id = r := Option.some.inj (hid.symm.trans hr)
    rw [he]
    exact refusal_reports hw hf hset _ desc
  · rw [hid] at hr
    cases hr

theorem receiveOfferSdp_reports (hw : Sound env w) (hc : (w.controls c).thread = true)
    (hf : w.fault = none) (hset : (w.controls c).observer = true) {peerId : String} {data : Json}
    (hr : (planned env w.nextInst "offersdp" peerId data).2 = some r) (origin : Option ℕ) :
    ReportsLast env c r (planned env w.nextInst "offersdp" peerId data).1 w
      (w.receiveOfferSdp env c peerId data origin) := by
  simp only [planned, String.reduceEq, if_true, if_false] at hr ⊢
  unfold receiveOfferSdp
  cases hsdp : env.rtc.getStringFromJsonObject data "sdp" with
  | none =>
    rw [hsdp] at hr
    cases hr
  | some sdp =>
    rw [hsdp] at hr
    dsimp only at hr ⊢
    by_cases ok : (env.initOutcome w.nextInst).ok = true
    · rw [if_pos ok] at hr
      cases hr
    · rw [if_neg ok] at hr
      have failed : (env.initOutcome w.nextInst).ok = false := by simpa using ok
      rw [if_neg ok, if_neg (by rw [newPeer_failed failed]; simp)]
      obtain rfl : peerId = r := Option.some.inj hr
      exact reject_reports hw hc hf hset failed

/-- A message that reports an id does so last, while whatever is registered stays so. -/
theorem onMessage_reports (hw : Sound env w) {m : Message}
    (hc : (w.controls m.handler).thread = true) (hf : w.fault = none)
    (hset : (w.controls m.handler).observer = true) (hr : r ∈ reportedIds env w m) :
    ReportsLast env m.handler r (startedIds env w m) w (w.onMessage env m) := by
  unfold reportedIds at hr
  unfold startedIds onMessage
  cases hm : m.messageId with
  | commandReceived =>
    simp only [hm] at hr ⊢
    cases hp : parseCommand env m.data.dataJson with
    | none => simp [hp] at hr
    | some p =>
      obtain ⟨command, peerId, data⟩ := p
      rw [onCommandReceived_some hp]
      simp only [hp] at hr ⊢
      split_ifs at hr with hclosed
      · cases hr
      unfold commandCloses at hr
      by_cases hcreate : command = "channelcreate"
      · subst hcreate
        simp only [if_true, Option.mem_toList] at hr
        simpa only [planned, String.reduceEq, if_true, if_false] using
          onChannelCreate_reports hw hf hset hr
      by_cases hjoin : command = "channeljoin"
      · subst hjoin
        simp only [String.reduceEq, if_true, if_false, Option.mem_toList] at hr
        simpa only [planned, String.reduceEq, if_true, if_false] using
          onChannelJoin_reports hw hf hset hr
      simp only [if_neg hcreate, if_neg hjoin, if_neg hclosed, Option.mem_toList] at hr
      by_cases hoffer : command = "createoffer"
      · subst hoffer
        simp only [planned, String.reduceEq, if_true, if_false, createOffer] at hr ⊢
        cases hpeers : env.rtc.getValueFromJsonObject data "peers" with
        | none => simp [hpeers] at hr
        | some peers =>
          simp only [hpeers] at hr ⊢
          exact createOffers_reports hw hc hf hset hr
      by_cases hsdp : command = "offersdp"
      · subst hsdp
        have h := receiveOfferSdp_reports hw hc hf hset hr m.origin
        simpa only [String.reduceEq, if_true, if_false] using h
      simp [planned, hoffer, hsdp] at hr
  | onPeerClose =>
    simp only [hm, List.mem_singleton] at hr ⊢
    subst hr
    unfold onPeerClose observeIfSet
    rw [if_pos hset]
    exact refusal_reports hw hf hset _ _
  | close => simp [hm] at hr
  | closePeer => simp [hm] at hr
  | onSignalConnectionClose => simp [hm] at hr

theorem unregistered_of_closesGone (hw : Reached env w) (hf : w.fault = none)
    (h : ClosesGone env w .process) : Unregistered env w .process := by
  intro m hm hset r hr hne
  obtain ⟨queue, hq⟩ : ∃ queue, w.queue = m :: queue := by
    cases hq : w.queue with
    | nil => simp [hq] at hm
    | cons m' queue =>
      obtain rfl : m' = m := by simpa [hq] using hm
      exact ⟨queue, rfl⟩
  have hs : Sound env { w with queue := queue } :=
    (Tick.dequeued w m queue hq : Tick env .free w _).sound hw.toSound
  have hc := hw.queued m (by rw [hq]; exact List.mem_cons_self)
  have ha : w.act env .process = World.onMessage env { w with queue := queue } m := by
    simp only [act, process, hq]
  have hlast := onMessage_reports (w := { w with queue := queue }) hs hc hf hset hr
  obtain ⟨source, code, desc, hobs⟩ := hlast.observed
  have hreg := hlast.registers
  have hmem : .observer m.handler source (.close r code desc) ∈ newObs env w .process := by
    obtain ⟨os, hos⟩ := hobs
    rw [newObs, ha, ← hos, List.append_assoc, List.drop_left]
    simp
  have hgone := h _ _ _ _ _ hmem hne
  rw [ha] at hgone
  constructor
  · by_contra hk
    exact hreg r (Or.inl hk) hgone
  · intro hk
    exact hreg r (Or.inr hk) hgone

/-! ### Steps of runs -/

/-- In every reachable state and for every step, a close event of a remote id means
that it has no entry in `peers_` exactly when the step reports no registered id. -/
theorem close_means_gone_iff (env : Env) (as : List Action) (a : Action)
    (hf : (run (World.step env) init as).fault = none) :
    ClosesGone env (run (World.step env) init as) a ↔
      Unregistered env (run (World.step env) init as) a := by
  have hw := reached_run env as
  generalize run (World.step env) init as = w at hw hf
  cases a with
  | process =>
    refine ⟨unregistered_of_closesGone hw hf, fun h => ?_⟩
    cases hq : w.queue with
    | nil =>
      have ha : w.act env .process = w := by simp only [act, process, hq]
      intro c source r code desc hobs
      simp [newObs, ha] at hobs
    | cons m queue => exact closesGone_process hw hq h
  | callback x cb =>
    refine ⟨fun _ => trivial, fun _ => ?_⟩
    exact closesGone_of_other (c := (w.insts x).control) hw ⟨trivial, fun e he => ⟨rfl, he⟩⟩
  | api a => exact ⟨fun _ => trivial, fun _ => closesGone_of_other (c := 0) hw trivial⟩
  | command message origin =>
    exact ⟨fun _ => trivial, fun _ => closesGone_of_other (c := 0) hw trivial⟩
  | net a => exact ⟨fun _ => trivial, fun _ => closesGone_of_other (c := 0) hw trivial⟩

/-- A connection to "b" is being made when the server refuses to let the peer join the
channel of `name`. -/
def refusedJoin (name : String) : List Action :=
  [.api .open, .net (.connectInternal true), .net (.onOpen 0),
    .command (createOfferMessage ["b"]) none, .process,
    .command (serverMessage "channeljoin" "" (.obj [("name", .str name), ("result", .bool false)]))
      none]

theorem close_means_gone_refusedJoin :
    .observer 0 none (.close "c" .signalError "Unknown reason") ∈ newObs (.idle "a" (by decide))
        (run (World.step (.idle "a" (by decide))) init (refusedJoin "c")) .process ∧
      ClosesGone (.idle "a" (by decide))
        (run (World.step (.idle "a" (by decide))) init (refusedJoin "c")) .process :=
  ⟨by decide +kernel, (close_means_gone_iff (.idle "a" (by decide)) (refusedJoin "c") .process
    (by decide +kernel)).mpr (by decide +kernel)⟩

/-- The refusal names the connected peer, whose entry stays. -/
theorem refusedJoin_not_gone : ¬ ClosesGone (.idle "a" (by decide))
    (run (World.step (.idle "a" (by decide))) init (refusedJoin "b")) .process := by
  intro h
  have hgone := h 0 none "b" .signalError "Unknown reason" (by decide +kernel) (by decide)
  exact absurd hgone (by decide +kernel)

end PeerApi.World
