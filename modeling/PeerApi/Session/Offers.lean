import PeerApi.Session.CloseAll

/-! The loop of `Control::CreateOffer`. It converts, starts and registers one id
after the other, and returns at the first that it cannot convert or start. So an
`Initialize` that fails takes the ids behind it down with it: they are neither
registered nor reported. And a list with a bad element is not rejected as a whole:
what stands before the bad element has been started by then. The other handlers
read all their fields before they act. -/

namespace PeerApi.World

open Base

variable {env : Env} {w w' : World} {c : ℕ}

/-! ### The loop -/

/-- What the loop does to the registry of its control and tells the observer, when
it starts some ids and fails to start another. -/
structure Looped (c : ℕ) (offered : List String × Option String) (w w' : World) : Prop where
  peers : ∀ k, (w'.controls c).peers.find? k ≠ none ↔
    (w.controls c).peers.find? k ≠ none ∨ k ∈ offered.1
  obs : w.obs <+: w'.obs
  observers : w'.obs.filter Obs.isObserver = w.obs.filter Obs.isObserver ++
    if (w.controls c).observer then
      offered.2.toList.map fun id => .observer c none (.close id .abnormal "")
    else []

theorem Looped.refl (c : ℕ) (w : World) : Looped c ([], none) w w :=
  ⟨by simp, List.prefix_rfl, by simp⟩

/-- Reporting the object that could not be started changes no registry. -/
theorem reject_same (hw : Sound env w) (hc : (w.controls c).thread = true) {id : String}
    (failed : (env.initOutcome w.nextInst).ok = false) :
    SameRegistry (w.newInst (newPeer env c id w).1) (w.reject env c (newPeer env c id w).1) := by
  have ht : Tick env .free w (w.newInst (newPeer env c id w).1) := .rejected w c id hc failed
  have h : Calls env (fun _ _ => True) nobody (w.newInst (newPeer env c id w).1)
      (w.reject env c (newPeer env c id w).1) :=
    observeIfSet_calls (ht.sound hw).channelsSet (Or.inr ⟨_, _, _, rfl⟩) trivial
  exact h.same

/-- The object is dropped, and reported if somebody listens. -/
theorem reject_looped (hw : Sound env w) (hc : (w.controls c).thread = true)
    (running : w.fault = none) {id : String} (failed : (env.initOutcome w.nextInst).ok = false) :
    Looped c ([], some id) w (w.reject env c (newPeer env c id w).1) := by
  have hpeers : ∀ k, ((w.reject env c (newPeer env c id w).1).controls c).peers.find? k ≠ none ↔
      (w.controls c).peers.find? k ≠ none ∨ k ∈ ([] : List String) := by
    intro k
    rw [(reject_same hw hc failed).peers]
    simp only [List.not_mem_nil, or_false]
    rfl
  by_cases hset : (w.controls c).observer = true
  · have hset' : ((w.newInst (newPeer env c id w).1).controls c).observer = true := hset
    have hrunning : (w.newInst (newPeer env c id w).1).fault = none := running
    have hobs := observe_obs env none (.close id .abnormal "") hrunning hset'
    refine ⟨hpeers, ?_, ?_⟩
    · rw [reject_eq hset failed]
      exact (List.prefix_append _ _).trans hobs
    · rw [reject_eq hset failed, if_pos hset,
        observe_observers env none (.close id .abnormal "") hrunning hset']
      rfl
  · have he : w.reject env c (newPeer env c id w).1 = w.newInst (newPeer env c id w).1 := by
      unfold reject onPeerClose observeIfSet
      exact if_neg hset
    refine ⟨hpeers, ?_, ?_⟩
    · rw [he]
      exact List.prefix_rfl
    · rw [he, if_neg hset, List.append_nil]
      rfl

theorem createOffers_looped (hw : Sound env w) (hc : (w.controls c).thread = true)
    (running : w.fault = none) (items : List (Option Json)) :
    Looped c (offered env w.nextInst items) w (createOffers env c items w) := by
  induction items generalizing w with
  | nil => exact .refl c w
  | cons item items ih =>
    simp only [offered, createOffers]
    cases hitem : item.bind env.rtc.getStringFromJson with
    | none => exact .refl c w
    | some remoteId =>
      dsimp only
      by_cases ok : (env.initOutcome w.nextInst).ok = true
      · rw [if_pos ok, if_pos (by rw [newPeer_ok ok])]
        have hid : (newPeer env c remoteId w).1.createOffer.remoteId = remoteId := by
          rw [newPeer_ok ok]; rfl
        have ht : Tick env .free w (w.register c (newPeer env c remoteId w).1.createOffer) :=
          .registered w c _ [] hc (.offer remoteId ok trivial) trivial
        have h := ih (ht.sound hw) (ht.grows.threads c hc) running
        refine ⟨fun k => ?_, h.obs, ?_⟩
        · rw [h.peers k, register_find?, hid, List.mem_cons]
          by_cases hk : k = remoteId
          · simp [hk]
          · simp only [hk, and_false, if_false, false_or]
            rfl
        · have hobs := h.observers
          rw [register_keeps (·.observer) (fun _ _ => rfl)] at hobs
          exact hobs
      · have failed : (env.initOutcome w.nextInst).ok = false := by simpa using ok
        rw [if_neg ok, if_neg (by rw [newPeer_failed failed]; simp)]
        exact reject_looped hw hc running failed

/-! ### Every id gets an outcome -/

/-- The id has a negotiating `PeerControl` after `CreateOffer`, or `CreateOffer` has
reported it as closed. -/
def Settled (env : Env) (c : ℕ) (data : Json) (w : World) (id : String) : Prop :=
  (∃ x, ((w.createOffer env c data).controls c).peers.find? id = some x ∧
    (((w.createOffer env c data).insts x).state = .connecting ∨
      ((w.createOffer env c data).insts x).state = .open)) ∨
  .observer c none (.close id .abnormal "") ∈ (w.createOffer env c data).obs.drop w.obs.length

/-- The loop comes to the id when the next instance has number `n`: `Initialize`
succeeds for all that stand before it in the list, and has the given result for the
id itself. -/
def ComesTo (env : Env) (n : ℕ) (ids : List String) (id : String) (ok : Bool) : Prop :=
  ∃ j, ids[j]? = some id ∧ (∀ l < j, (env.initOutcome (n + l)).ok = true) ∧
    (env.initOutcome (n + j)).ok = ok

/-- The id is registered already, or the loop comes to it and starts it, or fails to
and has an observer to tell. -/
def Covered (env : Env) (w : World) (c : ℕ) (ids : List String) (id : String) : Prop :=
  (w.controls c).peers.find? id ≠ none ∨ ComesTo env w.nextInst ids id true ∨
    (w.controls c).observer = true ∧ ComesTo env w.nextInst ids id false

/-- The id stands first, or the first is started and the loop comes to it later. -/
theorem comesTo_cons {n : ℕ} {head id : String} {ids : List String} {ok : Bool} :
    ComesTo env n (head :: ids) id ok ↔ (head = id ∧ (env.initOutcome n).ok = ok) ∨
      (env.initOutcome n).ok = true ∧ ComesTo env (n + 1) ids id ok := by
  have hshift : ∀ l, n + (l + 1) = n + 1 + l := by omega
  constructor
  · rintro ⟨j, hj, hbefore, hok⟩
    cases j with
    | zero => exact Or.inl ⟨by simpa using hj, hok⟩
    | succ j =>
      refine Or.inr ⟨hbefore 0 (by omega), j, by simpa using hj, fun l hl => ?_, ?_⟩
      · rw [← hshift]
        exact hbefore (l + 1) (by omega)
      · rw [← hshift]
        exact hok
  · rintro (⟨rfl, hok⟩ | ⟨h0, j, hj, hbefore, hok⟩)
    · exact ⟨0, rfl, by simp, hok⟩
    · refine ⟨j + 1, by simpa using hj, fun l hl => ?_, ?_⟩
      · cases l with
        | zero => exact h0
        | succ l =>
          rw [hshift]
          exact hbefore l (by omega)
      · rw [hshift]
        exact hok

/-- The loop starts or fails to start what it comes to. -/
theorem offered_iff {items : List Json} {ids : List String}
    (hids : items.map env.rtc.getStringFromJson = ids.map some) (n : ℕ) (id : String) :
    (id ∈ (offered env n (items.map some)).1 ↔ ComesTo env n ids id true) ∧
      ((offered env n (items.map some)).2 = some id ↔ ComesTo env n ids id false) := by
  induction items generalizing n ids with
  | nil =>
    obtain rfl : ids = [] := by simpa using hids.symm
    simp [offered, ComesTo]
  | cons item items ih =>
    cases ids with
    | nil => simp at hids
    | cons head ids =>
      simp only [List.map_cons, List.cons.injEq] at hids
      obtain ⟨hhead, hids⟩ := hids
      rw [comesTo_cons, comesTo_cons]
      simp only [offered, List.map_cons, Option.bind_some, hhead]
      by_cases ok : (env.initOutcome n).ok = true
      · obtain ⟨h1, h2⟩ := ih hids (n + 1)
        rw [if_pos ok]
        simp [h1, h2, ok, eq_comm]
      · rw [if_neg ok]
        simp [ok]

/-- In every reachable state and for every list of ids: all of them get an outcome
exactly when each is registered already or the loop comes to it. -/
theorem offers_settled_iff (env : Env) (as : List Action) (c : ℕ)
    (running : (run (World.step env) init as).fault = none)
    (thread : ((run (World.step env) init as).controls c).thread = true) {data : Json}
    {items : List Json} (peers : env.rtc.getValueFromJsonObject data "peers" = some (.arr items))
    {ids : List String} (strings : items.map env.rtc.getStringFromJson = ids.map some) :
    (∀ id ∈ ids, Settled env c data (run (World.step env) init as) id) ↔
      ∀ id ∈ ids, Covered env (run (World.step env) init as) c ids id := by
  have hw := (reached_run env as).toSound
  generalize run (World.step env) init as = w at hw running thread
  have he : w.createOffer env c data = createOffers env c (items.map some) w := by
    simp only [createOffer, peers, RtcJson.items_arr]
  have hloop := createOffers_looped hw thread running (items.map some)
  have hafter : Sound env (createOffers env c (items.map some) w) :=
    Ticks.sound (createOffers_ticks (G := .free) hw thread _ trivial (fun _ _ => trivial)
      (fun _ _ => trivial)) hw
  refine forall₂_congr fun id _ => ?_
  obtain ⟨h1, h2⟩ := offered_iff strings w.nextInst id
  unfold Settled Covered
  rw [he, ← h1, ← h2, ← or_assoc, ← hloop.peers]
  refine or_congr ?_ ?_
  · -- what is registered negotiates
    rw [Option.ne_none_iff_exists']
    refine exists_congr fun x => ⟨And.left, fun hx => ⟨hx, ?_⟩⟩
    exact (hafter.entries c id x hx).live.state
  · obtain ⟨os, hos⟩ := hloop.obs
    have hobs := hloop.observers
    rw [← hos, List.filter_append, List.append_cancel_left_eq] at hobs
    rw [← hos, List.drop_left]
    have hmem : .observer c none (.close id .abnormal "") ∈ os ↔
        .observer c none (.close id .abnormal "") ∈ os.filter Obs.isObserver := by
      simp [Obs.isObserver]
    rw [hmem, hobs]
    cases (w.controls c).observer with
    | true => cases (offered env w.nextInst (items.map some)).2 <;> simp [eq_comm]
    | false => simp

/-- An environment in which the given objects cannot be initialised. -/
def failingEnv (failed : ℕ → Bool) : Env :=
  { Env.alone with initOutcome := fun n => ⟨!failed n, true⟩ }

/-- The data of a request for offers to "b" and "c". -/
def offersToTwo : Json := .obj [("peers", .arr [.str "b", .str "c"])]

/-- The second of two fails, and is reported. -/
theorem offers_settled_last :
    Settled (failingEnv (· = 1)) 0 offersToTwo
      (run (World.step (failingEnv (· = 1))) init sessionOpen) "b" ∧
    Settled (failingEnv (· = 1)) 0 offersToTwo
      (run (World.step (failingEnv (· = 1))) init sessionOpen) "c" := by
  have hcovered : ∀ id ∈ ["b", "c"], Covered (failingEnv (· = 1))
      (run (World.step (failingEnv (· = 1))) init sessionOpen) 0 ["b", "c"] id := by
    intro id hid
    rcases List.mem_cons.mp hid with rfl | hid
    · exact Or.inr (Or.inl ⟨0, rfl, by simp, by decide +kernel⟩)
    · obtain rfl := List.mem_singleton.mp hid
      refine Or.inr (Or.inr ⟨by decide +kernel, 1, rfl, fun l hl => ?_, by decide +kernel⟩)
      obtain rfl : l = 0 := by omega
      decide +kernel
  have h : ∀ id ∈ ["b", "c"], Settled (failingEnv (· = 1)) 0 offersToTwo
      (run (World.step (failingEnv (· = 1))) init sessionOpen) id :=
    (offers_settled_iff (failingEnv (· = 1)) sessionOpen 0 (by decide +kernel) (by decide +kernel)
      rfl rfl).mpr hcovered
  exact ⟨h "b" (by simp), h "c" (by simp)⟩

/-- The first of two fails, and the second gets neither an object nor an event. -/
theorem offers_deprived : ¬ Settled (failingEnv (· = 0)) 0 offersToTwo
    (run (World.step (failingEnv (· = 0))) init sessionOpen) "c" := by
  rintro (⟨x, hx, -⟩ | hobs)
  · have hnone : ((createOffer (failingEnv (· = 0)) 0 offersToTwo
        (run (World.step (failingEnv (· = 0))) init sessionOpen)).controls 0).peers.find? "c" =
          none := by decide +kernel
    rw [hnone] at hx
    cases hx
  · revert hobs
    decide +kernel

/-! ### Malformed commands -/

/-- An array whose elements all convert. -/
def peersWellFormed (env : Env) : Json → Bool
  | .arr items => items.all fun item => (env.rtc.getStringFromJson item).isSome
  | _ => false

/-- The command is known and has all the fields its handler requires, of their
types. -/
def commandWellFormed (env : Env) (message : Json) : Bool :=
  match parseCommand env message with
  | none => false
  | some (command, _, data) =>
    if command = "createoffer" then
      match env.rtc.getValueFromJsonObject data "peers" with
      | none => false
      | some peers => peersWellFormed env peers
    else if command = "offersdp" ∨ command = "answersdp" then
      (env.rtc.getStringFromJsonObject data "sdp").isSome
    else if command = "ice_candidate" then
      (env.rtc.getStringFromJsonObject data "sdp_mid").isSome &&
        (env.rtc.getIntFromJsonObject data "sdp_mline_index").isSome &&
        (env.rtc.getStringFromJsonObject data "candidate").isSome
    else
      command = "open" ∨ command = "channelcreate" ∨ command = "channeljoin" ∨
        command = "channelleave" ∨ command = "peerclosed"

/-- A request for offers whose first element converts. -/
def startsOffers (env : Env) (message : Json) : Bool :=
  match parseCommand env message with
  | none => false
  | some (command, _, data) =>
    if command = "createoffer" then
      match env.rtc.getValueFromJsonObject data "peers" with
      | some (.arr (item :: _)) => (env.rtc.getStringFromJson item).isSome
      | _ => false
    else false

/-- No `PeerControl` is made or changed, nor is a registry, and no command is sent. -/
structure Untouched (w w' : World) : Prop where
  peers : ∀ c, (w'.controls c).peers = (w.controls c).peers
  made : w'.nextInst = w.nextInst
  insts : w'.insts = w.insts
  commands : w'.commands = w.commands

theorem Untouched.refl (w : World) : Untouched w w := ⟨fun _ => rfl, rfl, rfl, rfl⟩

/-- The loop makes an object for its first element as soon as it converts. -/
theorem createOffers_made (hw : Sound env w) (hc : (w.controls c).thread = true)
    (items : List (Option Json)) :
    (createOffers env c items w).nextInst = w.nextInst ↔
      ∀ item ∈ items.head?, item.bind env.rtc.getStringFromJson = none := by
  have hgrows : ∀ {w : World} (items : List (Option Json)), Sound env w →
      (w.controls c).thread = true → w.nextInst ≤ (createOffers env c items w).nextInst := by
    intro w items hw hc
    exact (Ticks.grows (createOffers_ticks (G := .free) hw hc _ trivial (fun _ _ => trivial)
      (fun _ _ => trivial))).insts
  cases items with
  | nil => simp [createOffers]
  | cons item items =>
    simp only [createOffers, List.head?_cons, Option.mem_def, Option.some.injEq, forall_eq']
    cases hitem : item.bind env.rtc.getStringFromJson with
    | none => simp
    | some remoteId =>
      simp only [reduceCtorEq, iff_false]
      apply Nat.ne_of_gt
      by_cases ok : (env.initOutcome w.nextInst).ok = true
      · rw [if_pos (by rw [newPeer_ok ok])]
        have ht : Tick env .free w (w.register c (newPeer env c remoteId w).1.createOffer) :=
          .registered w c _ [] hc (.offer remoteId ok trivial) trivial
        exact hgrows items (ht.sound hw) (ht.grows.threads c hc)
      · have failed : (env.initOutcome w.nextInst).ok = false := by simpa using ok
        rw [if_neg (by rw [newPeer_failed failed]; simp)]
        rw [(reject_same hw hc failed).nextInst]
        exact Nat.lt_succ_self _

theorem createOffers_untouched_iff (hw : Sound env w) (hc : (w.controls c).thread = true)
    (items : List (Option Json)) :
    Untouched w (createOffers env c items w) ↔
      ∀ item ∈ items.head?, item.bind env.rtc.getStringFromJson = none := by
  refine ⟨fun h => (createOffers_made hw hc items).mp h.made, fun h => ?_⟩
  cases items with
  | nil => exact .refl w
  | cons item items =>
    simp only [createOffers, h item rfl]
    exact .refl w

/-- The handlers that read all their fields first do nothing when one is missing. -/
theorem incomplete_ignored {message data : Json} {command peerId : String}
    (received : parseCommand env message = some (command, peerId, data))
    (malformed : commandWellFormed env message = false) (hoffer : command ≠ "createoffer")
    (origin : Option ℕ) : w.onCommandReceived env c message origin = w := by
  rw [onCommandReceived_some received]
  simp only [commandWellFormed, received, if_neg hoffer] at malformed
  by_cases hsdp : command = "offersdp" ∨ command = "answersdp"
  · rw [if_pos hsdp, Option.isSome_eq_false_iff, Option.isNone_iff_eq_none] at malformed
    rcases hsdp with rfl | rfl
    · simp only [String.reduceEq, if_true, if_false, receiveOfferSdp, malformed]
    · simp only [String.reduceEq, if_true, if_false, receiveAnswerSdp, malformed]
  rw [if_neg hsdp] at malformed
  rw [not_or] at hsdp
  by_cases hice : command = "ice_candidate"
  · subst hice
    simp only [String.reduceEq, if_true, if_false, addIceCandidate] at malformed ⊢
    cases hmid : env.rtc.getStringFromJsonObject data "sdp_mid" with
    | none => rfl
    | some mid =>
      cases hline : env.rtc.getIntFromJsonObject data "sdp_mline_index" with
      | none => rfl
      | some line =>
        cases hcandidate : env.rtc.getStringFromJsonObject data "candidate" with
        | none => rfl
        | some candidate => simp [hmid, hline, hcandidate] at malformed
  · rw [if_neg hice, decide_eq_false_iff_not] at malformed
    simp only [not_or] at malformed
    obtain ⟨h1, h2, h3, h4, h5⟩ := malformed
    rw [if_neg h1, if_neg h2, if_neg h3, if_neg h4, if_neg h5, if_neg hoffer, if_neg hsdp.1,
      if_neg hsdp.2, if_neg hice]

/-- In every reachable state a malformed command is rejected as a whole exactly when
it is not a request for offers whose first element converts. -/
theorem malformed_untouched_iff (env : Env) (as : List Action) (c : ℕ)
    (thread : ((run (World.step env) init as).controls c).thread = true) (message : Json)
    (malformed : commandWellFormed env message = false) (origin : Option ℕ) :
    Untouched (run (World.step env) init as)
        ((run (World.step env) init as).onCommandReceived env c message origin) ↔
      startsOffers env message = false := by
  have hw := (reached_run env as).toSound
  generalize run (World.step env) init as = w at hw thread
  cases hp : parseCommand env message with
  | none =>
    rw [onCommandReceived_none hp]
    simp [startsOffers, hp, Untouched.refl]
  | some p =>
    obtain ⟨command, peerId, data⟩ := p
    by_cases hoffer : command = "createoffer"
    · subst hoffer
      rw [onCommandReceived_some hp]
      simp only [startsOffers, hp, String.reduceEq, if_true, if_false, createOffer]
      cases hpeers : env.rtc.getValueFromJsonObject data "peers" with
      | none => simp [Untouched.refl]
      | some peers =>
        dsimp only
        rw [createOffers_untouched_iff hw thread]
        cases peers with
        | arr items => cases items <;> simp [RtcJson.items_arr]
        | _ => simp [RtcJson.items_other, List.head?_replicate]
    · rw [incomplete_ignored hp malformed hoffer]
      simp [startsOffers, hp, hoffer, Untouched.refl]

/-- A candidate without its text. -/
theorem malformed_untouched_candidate :
    let message := serverMessage "ice_candidate" "b"
      (.obj [("sdp_mid", .str "data"), ("sdp_mline_index", .int 0)])
    Untouched (run (World.step (.idle "a" (by decide))) init sessionOpen)
      ((run (World.step (.idle "a" (by decide))) init sessionOpen).onCommandReceived
        (.idle "a" (by decide)) 0 message none) :=
  (malformed_untouched_iff (.idle "a" (by decide)) sessionOpen 0 (by decide +kernel)
    _ (by decide +kernel) none).mpr (by decide +kernel)

/-- A request for offers with an object behind an id: the id has been started. -/
theorem badElement_acts :
    let message := serverMessage "createoffer" "" (.obj [("peers", .arr [.str "b", .obj []])])
    commandWellFormed (.idle "a" (by decide)) message = false ∧
      ¬ Untouched (run (World.step (.idle "a" (by decide))) init sessionOpen)
        ((run (World.step (.idle "a" (by decide))) init sessionOpen).onCommandReceived
          (.idle "a" (by decide)) 0 message none) := by
  intro message
  refine ⟨by decide +kernel, fun h => ?_⟩
  have hfind := congrArg (·.find? "b") (h.peers 0)
  revert hfind
  decide +kernel

end PeerApi.World
