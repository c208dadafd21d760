import PeerApi.Session.PeerClose

/-! Who holds a connection. An object that has been started and not closed is the
one stored under its remote id, as long as ids are only started that are not in
`peers_`: `insert` keeps an older entry, so a second start leaves the new object
with nobody but the pending description request. A control that loses its observer
is soon destroyed with its `peers_`, so it must not have any left. -/

namespace PeerApi.World

open Base Relation PeerControl

variable {env : Env} {G : Guard} {w w' : World}

/-! ### What ticks add to and closing removes from the registry -/

/-- Only a start adds an entry. -/
theorem Ticks.find? {A : ℕ → String → Prop} (hG : ∀ {w c id ids}, G.starts w c (id :: ids) → A c id)
    (h : Ticks env G w w') {d : ℕ} {k : String} {x : ℕ}
    (hx : (w'.controls d).peers.find? k = some x) :
    (w.controls d).peers.find? k = some x ∨ A d k := by
  induction h with
  | refl => exact Or.inl hx
  | @tail w₁ w₂ _ ht ih =>
    by_cases hold : (w₁.controls d).peers.find? k = some x
    · exact ih hold
    refine Or.inr ?_
    cases ht with
    | call h => exact absurd (h.same.peers d ▸ hx) hold
    | dequeued m queue h => exact absurd hx hold
    | received c message origin thread ok => exact absurd hx hold
    | callback x cb hx' alive started report h => exact absurd (h.same.peers d ▸ hx) hold
    | answered c k x sdp origin h from_ => exact absurd hx hold
    | candidate c k x sdpMid sdpMlineIndex candidate h => exact absurd hx hold
    | closed c k' y code h calls =>
      rw [calls.same.peers, removePeer_find?] at hx
      split_ifs at hx
      exact absurd hx hold
    | registered c p ids thread new starts =>
      rw [register_find?] at hx
      split_ifs at hx with hdk
      · rw [hdk.1, hdk.2]
        exact hG starts
      · exact absurd hx hold
    | rejected c remoteId thread failed => exact absurd hx hold

/-- The guard of a step that starts nothing. -/
def Guard.startless : Guard :=
  { Guard.free with starts := fun _ _ ids => ids = [], starts_register := fun _ h => by cases h }

theorem Ticks.find?_startless (h : Ticks env .startless w w') {d : ℕ} {k : String} {x : ℕ}
    (hx : (w'.controls d).peers.find? k = some x) : (w.controls d).peers.find? k = some x :=
  (h.find? (A := fun _ _ => False) (fun h => by cases h) hx).resolve_right id

/-- From the moment at which `ClosePeer` takes an entry out, the entry is gone,
whatever the object has already reported. -/
theorem removed_gone (hw : Sound env w) {c : ℕ} {k : String} {x : ℕ}
    (hx : (w.controls c).peers.find? k = some x) (code : CloseCode) {fs : List Effect}
    (hfs : fs <+: removeEffects env x code w) :
    ((fs.foldl (perform env x) (w.removePeer env c k x code)).controls c).peers.find? k = none := by
  have hok := (removePeer_effects env (hw.entries c k x hx).live c k code).2
  have hcalls : Calls env (fun _ _ => True) (fun _ _ => True) (w.removePeer env c k x code) _ :=
    performs_calls (hw.removePeer hx code).channelsSet (fun _ _ => trivial)
      (fun f hf => hok f (hfs.subset hf)) fun _ _ _ _ => trivial
  rw [hcalls.same.peers, removePeer_find?, if_pos ⟨rfl, rfl⟩]

theorem closePeer_removes (hw : Sound env w) (c : ℕ) (code : CloseCode) (k : String) :
    ((w.closePeer env c code k).controls c).peers.find? k = none := by
  cases hx : (w.controls c).peers.find? k with
  | none =>
    simp only [closePeer, hx]
  | some x =>
    simp only [closePeer, hx]
    have hleaves (w : World) : Moves env nobody w (w.leaveChannel k) := leaveChannel_moves k w
    rw [(hleaves _).same.peers]
    exact removed_gone hw hx code List.prefix_rfl

theorem closePeers_removes (hw : Sound env w) (c : ℕ) (code : CloseCode) (ids : List String) :
    ∀ id ∈ ids, ((ids.foldl (closePeer env c code) w).controls c).peers.find? id = none := by
  induction ids generalizing w with
  | nil => simp
  | cons id ids ih =>
    have h : Ticks env .startless w (w.closePeer env c code id) :=
      closePeer_ticks hw c code id fun _ _ _ => trivial
    have hw' := h.sound hw
    intro id' hid'
    rcases List.mem_cons.mp hid' with rfl | hid'
    · have hrest : Ticks env .startless _ (ids.foldl (closePeer env c code) _) :=
        closePeers_ticks hw' c code ids fun _ _ => trivial
      by_contra hne
      obtain ⟨x, hx⟩ := Option.ne_none_iff_exists'.mp hne
      have := hrest.find?_startless hx
      rw [closePeer_removes hw] at this
      cases this
    · exact ih hw' id' hid'

theorem close_removes (hw : Sound env w) (c : ℕ) (code : CloseCode) (k : String) :
    ((w.close env c code).controls c).peers.find? k = none := by
  have hids := hw.remoteIds c
  have hfold := closePeers_removes hw c code
    ((w.controls c).peers.entries.map fun e => (w.insts e.2).remoteId)
  have ht : Ticks env .startless w _ := closePeers_ticks hw c code
    ((w.controls c).peers.entries.map fun e => (w.insts e.2).remoteId) fun _ _ => trivial
  have hobs : Calls env (fun _ _ => True) nobody _ (w.close env c code) :=
    observeIfSet_calls (ht.sound hw).channelsSet (Or.inr ⟨_, _, _, rfl⟩) trivial
  rw [hobs.same.peers]
  by_contra hne
  obtain ⟨x, hx⟩ := Option.ne_none_iff_exists'.mp hne
  have hold := ht.find?_startless hx
  rw [hfold k] at hx
  · cases hx
  · rw [hids]
    exact List.mem_map.mpr ⟨(k, x), OrderedMap.mem_entries.mpr hold, rfl⟩

/-- The ids a message takes out of `peers_`. -/
def removedIds (env : Env) (w : World) (m : Message) : List String :=
  match m.messageId with
  | .closePeer => [m.data.dataString]
  | .commandReceived =>
    match parseCommand env m.data.dataJson with
    | some (command, peerId, _) => if command = "peerclosed" then [peerId] else []
    | none => []
  | .onPeerClose => []
  | _ => (w.controls m.handler).peers.entries.map Prod.fst

theorem onMessage_removes (hw : Sound env w) {m : Message} {k : String}
    (hk : k ∈ removedIds env w m) :
    ((w.onMessage env m).controls m.handler).peers.find? k = none := by
  unfold removedIds at hk
  unfold onMessage
  dsimp only
  cases hm : m.messageId with
  | commandReceived =>
    simp only [hm] at hk
    dsimp only
    split at hk
    next command peerId data hp =>
      split_ifs at hk with hc
      · subst hc
        rw [List.mem_singleton.mp hk, onCommandReceived_some hp]
        simp only [String.reduceEq, if_true, if_false]
        exact closePeer_removes hw _ _ _
      · cases hk
    · cases hk
  | close => exact close_removes hw _ _ k
  | closePeer =>
    simp only [hm, List.mem_singleton] at hk
    rw [hk]
    exact closePeer_removes hw _ _ _
  | onPeerClose => simp [hm] at hk
  | onSignalConnectionClose => exact close_removes hw _ _ k

/-! ### Ownership -/

/-- A quiet callback does not reopen a closed object. -/
theorem callback_closed {p : PeerControl} (hp : p.Phase) (hs : p.Started) {cb : Callback}
    (hq : p.QuietReport cb) (hc : p.state = .closed) : (p.callback cb).1.state = .closed := by
  cases hp with
  | rejected h log => exact absurd hs.role (by simp [h.role])
  | live h log => exact absurd h.state (by simp [hc])
  | closed h => exact (callback_late (Or.inr hc) (hq h.peerConnection)).1.trans hc

theorem Sound.owner_lt (hw : Sound env w) {x : ℕ} (hx : x < w.nextInst) :
    (w.insts x).control < w.nextControl := hw.thread_lt (hw.owners x hx)

/-- The steps of the guard are quiet and start only ids that are not in `peers_`. -/
structure Guard.Careful (G : Guard) : Prop where
  quiet : ∀ {w x cb}, G.report w x cb → (w.insts x).QuietReport cb
  free : ∀ {w c id ids}, G.starts w c (id :: ids) → (w.controls c).peers.find? id = none

/-- The instance is one of the old world that was not closed there. -/
structure Survives (w w' : World) (x : ℕ) : Prop where
  bound : x < w.nextInst
  state : (w.insts x).state ≠ .closed
  control : (w'.insts x).control = (w.insts x).control
  remoteId : (w'.insts x).remoteId = (w.insts x).remoteId

/-- The tick starts the instance. -/
structure Begins (env : Env) (G : Guard) (w w' : World) (x : ℕ) : Prop where
  fresh : x = w.nextInst
  new : ∃ c p ids, w' = w.register c p ∧ Begun p c ∧ (w.controls c).thread = true ∧
    G.starts w c (p.remoteId :: ids)

theorem survives_of_eq {x : ℕ} (hx : x < w.nextInst) (h : w'.insts x = w.insts x)
    (hs : (w'.insts x).state ≠ .closed) : Survives w w' x :=
  ⟨hx, h ▸ hs, by rw [h], by rw [h]⟩

theorem survives_setInst {p : PeerControl} {x : ℕ} (hc : p.control = (w.insts x).control)
    (hr : p.remoteId = (w.insts x).remoteId) (hs : (w.insts x).state = .closed → p.state = .closed)
    {y : ℕ} (hy : y < w.nextInst) (hy' : ((w.setInst x p).insts y).state ≠ .closed) :
    Survives w (w.setInst x p) y := by
  by_cases hyx : y = x
  · subst hyx
    rw [setInst_insts_self] at hy'
    exact ⟨hy, fun h => hy' (hs h), by rw [setInst_insts_self, hc], by rw [setInst_insts_self, hr]⟩
  · exact survives_of_eq hy (setInst_insts_ne hyx p w) hy'

theorem Survives.same {w₁ : World} {x : ℕ} (h : Survives w w₁ x) (hs : SameRegistry w₁ w') :
    Survives w w' x :=
  ⟨h.bound, h.state, by rw [hs.insts]; exact h.control, by rw [hs.insts]; exact h.remoteId⟩

theorem removePeer_closed (hw : Sound env w) {c : ℕ} {k : String} {x : ℕ}
    (h : (w.controls c).peers.find? k = some x) (code : CloseCode) :
    ((w.removePeer env c k x code).insts x).state = .closed := by
  rw [World.removePeer, setInst_insts_self, (hw.entries c k x h).live.close_eq]
  rfl

/-- An object that is not closed after a tick was not closed before it, or has been
started by it. -/
theorem Tick.survives (hG : G.Careful) (h : Tick env G w w') (hw : Sound env w)
    (hp : Everywhere Phase w) {x : ℕ} (hx : x < w'.nextInst) (hs : (w'.insts x).state ≠ .closed) :
    Survives w w' x ∨ Begins env G w w' x := by
  have same {w₁ : World} (hsame : SameRegistry w₁ w')
      (h₁ : x < w₁.nextInst → (w₁.insts x).state ≠ .closed → Survives w w₁ x) :
      Survives w w' x ∨ Begins env G w w' x :=
    Or.inl ((h₁ (hsame.nextInst ▸ hx) (hsame.insts ▸ hs)).same hsame)
  cases h with
  | call h => exact same h.same fun hx hs => ⟨hx, hs, rfl, rfl⟩
  | dequeued m queue h => exact Or.inl (survives_of_eq hx rfl hs)
  | received c message origin thread ok => exact Or.inl (survives_of_eq hx rfl hs)
  | callback y cb hy alive started report h =>
    have hk := callback_keeps (w.insts y) cb
    exact same h.same (survives_setInst (p := logged ((w.insts y).callback cb)) hk.control
      hk.remoteId (callback_closed (hp y hy) started (hG.quiet report)))
  | answered c k y sdp origin h from_ =>
    rw [(hw.entries c k y h).live.receiveAnswerSdp_eq] at hs ⊢
    refine Or.inl (survives_setInst (w := w) (x := y) ?_ ?_ ?_ hx hs)
    · rfl
    · rfl
    · exact id
  | candidate c k y sdpMid sdpMlineIndex candidate h =>
    rw [(hw.entries c k y h).live.addIceCandidate_eq] at hs ⊢
    refine Or.inl (survives_setInst (w := w) (x := y) ?_ ?_ ?_ hx hs)
    · rfl
    · rfl
    · exact id
  | closed c k y code h calls =>
    refine same calls.same fun hx hs => survives_of_eq hx (setInst_insts_ne ?_ _ _) hs
    rintro rfl
    exact hs (removePeer_closed hw h code)
  | registered c p ids thread new starts =>
    rcases Nat.lt_succ_iff_lt_or_eq.mp hx with hx | rfl
    · exact Or.inl (survives_of_eq hx (newInst_insts_lt hx) hs)
    · exact Or.inr ⟨rfl, c, p, ids, rfl, new.begun, thread, starts⟩
  | rejected c remoteId thread failed =>
    rcases Nat.lt_succ_iff_lt_or_eq.mp hx with hx | rfl
    · exact Or.inl (survives_of_eq hx (newInst_insts_lt hx) hs)
    · rw [newInst_insts_self, newPeer_failed failed] at hs
      exact absurd rfl hs

/-- A tick removes only objects that it closes. -/
theorem Tick.keeps_entry (h : Tick env G w w') (hw : Sound env w) {c : ℕ} {k : String} {x : ℕ}
    (hs : (w'.insts x).state ≠ .closed) (hx : (w.controls c).peers.find? k = some x) :
    (w'.controls c).peers.find? k = some x := by
  cases h with
  | call h => rw [h.same.peers]; exact hx
  | dequeued m queue h => exact hx
  | received d message origin thread ok => exact hx
  | callback y cb hy alive started report h => rw [h.same.peers]; exact hx
  | answered d k' y sdp origin h from_ => exact hx
  | candidate d k' y sdpMid sdpMlineIndex candidate h => exact hx
  | closed d k' y code h calls =>
    rw [calls.same.peers, removePeer_find?, if_neg]
    · exact hx
    · rintro ⟨rfl, rfl⟩
      obtain rfl : x = y := Option.some.inj (hx.symm.trans h)
      rw [calls.same.insts] at hs
      exact hs (removePeer_closed hw h code)
  | registered d p ids thread new starts =>
    rw [register_find?]
    split_ifs with hdk
    · rw [← hdk.1, hx]
      rfl
    · exact hx
  | rejected d remoteId thread failed => exact hx

/-- Every object that is not closed is the one registered under its id, if its
control satisfies `A`. -/
def Owned (A : World → ℕ → Prop) (w : World) : Prop :=
  ∀ x, x < w.nextInst → (w.insts x).state ≠ .closed → A w (w.insts x).control →
    (w.controls (w.insts x).control).peers.find? (w.insts x).remoteId = some x

/-- A condition on controls that none regains. -/
def Fading (A : World → ℕ → Prop) : Prop :=
  ∀ w w' c, Grows w w' → c < w.nextControl → A w' c → A w c

theorem Owned.same {A : World → ℕ → Prop} (hA : Fading A) (ho : Owned A w) (hw : Sound env w)
    (hg : Grows w w') (hs : SameRegistry w w') : Owned A w' := by
  intro x hx hs' ha
  rw [hs.insts] at hs' ha ⊢
  rw [hs.peers]
  have hx' := hs.nextInst ▸ hx
  exact ho x hx' hs' (hA w w' _ hg (hw.owner_lt hx') ha)

/-- Starting only ids that are not in `peers_` leaves no object without an entry. -/
theorem Owned.tick {A : World → ℕ → Prop} (hA : Fading A) (hG : G.Careful)
    (h : Tick env G w w') (hw : Sound env w) (hp : Everywhere Phase w) (ho : Owned A w) :
    Owned A w' := by
  intro x hx hs ha
  rcases h.survives hG hw hp hx hs with hsur | ⟨rfl, c, p, ids, rfl, hbegun, -, starts⟩
  · rw [hsur.control] at ha ⊢
    rw [hsur.remoteId]
    exact h.keeps_entry hw hs
      (ho x hsur.bound hsur.state (hA w w' _ h.grows (hw.owner_lt hsur.bound) ha))
  · rw [register_insts, newInst_insts_self, hbegun.control, register_find?, if_pos ⟨rfl, rfl⟩,
      hG.free starts]
    rfl

/-- The guard of a quiet step that starts only ids that are not in `peers_`, none
twice and each under a further condition. -/
def freshGuard (raises : ℕ → Event → Prop) (extra : World → ℕ → String → Prop)
    (hextra : ∀ w c p d id, extra w d id → extra (w.register c p) d id) : Guard where
  raises := raises
  report w x cb := (w.insts x).QuietReport cb
  receives _ _ := True
  offers _ := True
  origin _ _ _ := True
  starts w d ids := ids.Nodup ∧ ∀ id ∈ ids, (w.controls d).peers.find? id = none ∧ extra w d id
  starts_register := by
    rintro w d id ids p hid ⟨hnodup, hall⟩
    obtain ⟨hid', hnodup⟩ := List.nodup_cons.mp hnodup
    refine ⟨hnodup, fun id' h' => ?_⟩
    have hne : id' ≠ p.remoteId := by
      rintro rfl
      exact hid' (hid ▸ h')
    obtain ⟨hfind, hmore⟩ := hall id' (List.mem_cons_of_mem id h')
    rw [register_find?, if_neg fun h => hne h.2]
    exact ⟨hfind, hextra _ _ _ _ _ hmore⟩

/-- Every object is in its phase and, where the control satisfies `A`, registered. -/
structure Tended (env : Env) (A : World → ℕ → Prop) (w : World) : Prop extends Sound env w where
  phases : Everywhere Phase w
  owned : Owned A w

theorem freshGuard_careful {raises : ℕ → Event → Prop} {extra : World → ℕ → String → Prop}
    (hextra : ∀ w c p d id, extra w d id → extra (w.register c p) d id) :
    (freshGuard raises extra hextra).Careful :=
  ⟨fun h => h, fun hst => (hst.2 _ List.mem_cons_self).1⟩

theorem Tended.tick {A : World → ℕ → Prop} (hq : env.Quiet) (hA : Fading A) (hG : G.Careful)
    (h : Tick env G w w') (hw : Tended env A w) : Tended env A w' :=
  ⟨h.sound hw.toSound, (phase_stable hq).tick (fun _ _ _ h => hG.quiet h) h hw.toSound hw.phases,
    hw.owned.tick hA hG h hw.toSound hw.phases⟩

theorem Tended.ticks {A : World → ℕ → Prop} (hq : env.Quiet) (hA : Fading A) (hG : G.Careful)
    (h : Ticks env G w w') (hw : Tended env A w) : Tended env A w' :=
  calls_invariant (fun h hw => hw.tick hq hA hG h) h hw

theorem released_same (w : World) (x : ℕ) :
    (w.releaseControls.releaseInsts.insts x).state = (w.insts x).state ∧
    (w.releaseControls.releaseInsts.insts x).control = (w.insts x).control ∧
    (w.releaseControls.releaseInsts.insts x).remoteId = (w.insts x).remoteId :=
  ⟨releaseInsts_keeps (·.state) (fun _ => rfl) x, releaseInsts_keeps (·.control) (fun _ => rfl) x,
    releaseInsts_keeps (·.remoteId) (fun _ => rfl) x⟩

/-- The releases leave an open object its entry unless its control dies. -/
theorem Tended.releases {A : World → ℕ → Prop} (hq : env.Quiet) (hw : Tended env A w)
    (hA : ∀ x, x < w.nextInst → (w.insts x).state ≠ .closed →
      A w.releaseControls.releaseInsts (w.insts x).control →
      ¬ w.Dying (w.insts x).control ∧ A w (w.insts x).control) :
    Tended env A w.releaseControls.releaseInsts := by
  refine ⟨hw.releaseControls.releaseInsts.toSound, (phase_stable hq).releases hw.phases,
    fun x hx hs ha => ?_⟩
  obtain ⟨hstate, hcontrol, hremote⟩ := released_same w x
  rw [hstate] at hs
  rw [hcontrol] at ha ⊢
  rw [hremote]
  obtain ⟨hlive, ha⟩ := hA x hx hs ha
  have hx' := hw.owned x hx hs ha
  rw [← releaseControls_stays hlive] at hx'
  exact hx'

/-! ### Attendance -/

/-- The control of every object that is not closed satisfies `C` beside the
installed control. -/
def Within (C : Option ℕ → ℕ → Prop) (w : World) : Prop :=
  ∀ x, x < w.nextInst → (w.insts x).state ≠ .closed → C w.control (w.insts x).control

theorem Within.tick {C : Option ℕ → ℕ → Prop} (hG : G.Careful)
    (h : Tick env G w w') (hw : Sound env w) (hp : Everywhere Phase w)
    (hC : ∀ c, C w.control c → C w'.control c)
    (hst : ∀ {c id ids}, (w.controls c).thread = true → G.starts w c (id :: ids) → C w.control c)
    (hin : Within C w) : Within C w' := by
  intro x hx hs
  rcases h.survives hG hw hp hx hs with hsur | ⟨rfl, c, p, ids, rfl, hbegun, thread, starts⟩
  · rw [hsur.control]
    exact hC _ (hin x hsur.bound hsur.state)
  · rw [register_insts, newInst_insts_self, hbegun.control]
    exact hst thread starts

/-- No control that may raise the local close event has an observer left. -/
def Calm (env : Env) (raises : ℕ → Event → Prop) (w : World) : Prop :=
  ∀ c e, raises c e → e.Closes env.peerId → c < w.nextControl ∧ (w.controls c).observer = false

theorem Calm.grows {raises : ℕ → Event → Prop} (h : Calm env raises w) (hg : Grows w w') :
    Calm env raises w' :=
  fun c e hr he => ⟨(h c e hr he).1.trans_le hg.controls,
    hg.observers c (h c e hr he).1 (h c e hr he).2⟩

/-- Without the local close event the installed control stays. -/
theorem Calls.holds {raises : ℕ → Event → Prop} {src : ℕ → Effect → Prop}
    (h : Calls env raises src w w') (hcalm : Calm env raises w) {d : ℕ} (hd : w.control = some d) :
    w'.control = some d := by
  refine (calls_invariant (P := fun w => Calm env raises w ∧ w.control = some d)
    (fun {w w'} h hw => ⟨hw.1.grows h.grows, ?_⟩) h ⟨hcalm, hd⟩).2
  obtain ⟨hcalm, hd⟩ := hw
  cases h with
  | move h => exact h.holds hd
  | event c source e running set ok admits moves =>
    have hlocal : ¬ e.Closes env.peerId := by
      intro he
      have := (hcalm c e admits he).2
      rw [set] at this
      cases this
    refine calls_invariant (P := fun w => w.control = some d) (fun h hw => ?_) moves hd
    cases h with
    | move h => exact h.holds hw
    | dropped d' hd' he => exact absurd he hlocal
    | _ => exact hw

theorem Tick.holds (h : Tick env G w w') (hcalm : Calm env G.raises w) {d : ℕ}
    (hd : w.control = some d) : w'.control = some d := by
  cases h with
  | call h => exact Calls.holds (.single h) hcalm hd
  | callback x cb hx alive started report h => exact h.holds hcalm hd
  | closed c k x code h calls =>
    exact calls.holds (hcalm.grows (removePeer_grows env c k x code w)) hd
  | _ => exact hd

/-! ### Runs without orphans -/

/-- A control starts only ids that are not in `peers_`, no id twice in one command
and none without its observer. A message that reports the local id as closed starts
nothing and takes every connection out of `peers_`. -/
def OrderlyMessage (env : Env) (w : World) (m : Message) : Prop :=
  ((startedIds env w m).Nodup ∧ ∀ id ∈ startedIds env w m,
    (w.controls m.handler).observer = true ∧ (w.controls m.handler).peers.find? id = none) ∧
  ((w.controls m.handler).observer = true → env.peerId ∈ closedIds env w m →
    startedIds env w m = [] ∧
      ∀ e ∈ (w.controls m.handler).peers.entries, e.1 ∈ removedIds env w m)

instance (env : Env) (w : World) (m : Message) : Decidable (OrderlyMessage env w m) := by
  unfold OrderlyMessage
  infer_instance

/-- What keeps `peers_` and the connections together: the messages are orderly, and
WebRTC is quiet after a release. -/
def Orderly (env : Env) (w : World) : Action → Prop
  | .callback x cb => (w.insts x).QuietReport cb
  | .process => ∀ m ∈ w.queue.head?, OrderlyMessage env w m
  | _ => True

instance (env : Env) (w : World) : (a : Action) → Decidable (Orderly env w a)
  | .callback x cb => inferInstanceAs (Decidable ((w.insts x).peerConnection = false → cb.Quiet))
  | .process => inferInstanceAs (Decidable (∀ m ∈ w.queue.head?, OrderlyMessage env w m))
  | .api _ => inferInstanceAs (Decidable True)
  | .command _ _ => inferInstanceAs (Decidable True)
  | .net _ => inferInstanceAs (Decidable True)

/-- The guard of a step of such a run: only control `c` raises close events, for the
given ids, and starts connections. -/
def orderlyGuard (c : ℕ) (closed : List String) : Guard :=
  freshGuard (fun d e => d = c ∧ ∀ id, e.Closes id → id ∈ closed)
    (fun w d _ => d = c ∧ (w.controls d).observer = true)
    (fun _ _ _ _ _ h => ⟨h.1, (register_keeps (·.observer) (fun _ _ => rfl) _ _ _ _).trans h.2⟩)

theorem orderlyGuard_careful (c : ℕ) (closed : List String) : (orderlyGuard c closed).Careful :=
  freshGuard_careful _

/-- What an orderly run maintains. -/
structure Kept (env : Env) (w : World) : Prop extends Tended env (fun _ _ => True) w where
  attended : Within (fun installed c => installed = some c) w

theorem fading_true : Fading fun _ _ => True := fun _ _ _ _ _ h => h

section

variable {c : ℕ} {closed : List String}

theorem orderly_within (hq : env.Quiet) {K : World → Prop} {C : Option ℕ → ℕ → Prop}
    (hK : ∀ {w w'}, Grows w w' → K w → K w')
    (hC : ∀ {w w'}, Tick env (orderlyGuard c closed) w w' → K w → ∀ d, C w.control d → C w'.control d)
    (hst : ∀ {w}, Sound env w → (w.controls c).thread = true → (w.controls c).observer = true →
      C w.control c)
    (h : Ticks env (orderlyGuard c closed) w w') (hw : Tended env (fun _ _ => True) w)
    (hk : K w) (hin : Within C w) : Within C w' := by
  refine (calls_invariant (P := fun w => Tended env (fun _ _ => True) w ∧ K w ∧ Within C w)
    (fun {w w'} h hw => ?_) h ⟨hw, hk, hin⟩).2.2
  obtain ⟨hw, hk, hin⟩ := hw
  refine ⟨hw.tick hq fading_true (orderlyGuard_careful c closed) h, hK h.grows hk,
    hin.tick (orderlyGuard_careful c closed) h hw.toSound hw.phases (hC h hk)
      fun {d id ids} ht starts => ?_⟩
  obtain ⟨rfl, hobs⟩ := (starts.2 _ List.mem_cons_self).2
  exact hst hw.toSound ht hobs

/-- A step in which no local close event reaches the peer keeps every open object
with the installed control. -/
theorem Kept.calm (hq : env.Quiet) (hk : Kept env w) (h : Ticks env (orderlyGuard c closed) w w')
    (hcalm : Calm env (orderlyGuard c closed).raises w) : Kept env w' :=
  ⟨hk.ticks hq fading_true (orderlyGuard_careful c closed) h,
    orderly_within hq (fun hg hcalm => hcalm.grows hg) (fun h hcalm _ hd => h.holds hcalm hd)
      (fun hw ht ho => hw.observed c ho ht) h hk.toTended hcalm hk.attended⟩

/-- A step that leaves the only control with open objects without entries closes
them all. -/
theorem Kept.emptied (hq : env.Quiet) (hk : Kept env w) (h : Ticks env (orderlyGuard c closed) w w')
    (hc : w.control = some c) (hempty : ∀ k, (w'.controls c).peers.find? k = none) :
    Kept env w' := by
  have hw' := hk.ticks hq fading_true (orderlyGuard_careful c closed) h
  have hsole : Within (fun _ d => d = c) w' :=
    orderly_within hq (K := fun _ => True) (fun _ _ => trivial) (fun _ _ _ hd => hd)
      (fun _ _ _ => rfl) h hk.toTended trivial fun x hx hs => by
        have := hk.attended x hx hs
        rw [hc] at this
        exact (Option.some.inj this).symm
  refine ⟨hw', fun x hx hs => ?_⟩
  have hx' := hw'.owned x hx hs trivial
  rw [hsole x hx hs, hempty] at hx'
  cases hx'

end

/-- A message that starts nothing and takes out everything leaves no entry. -/
theorem onMessage_empties (hr : Reached env w) {m : Message} {queue : List Message}
    (hqueue : w.queue = m :: queue) (hnone : startedIds env w m = [])
    (hall : ∀ e ∈ (w.controls m.handler).peers.entries, e.1 ∈ removedIds env w m) (k : String) :
    ((w.act env .process).controls m.handler).peers.find? k = none := by
  have hadm : Admitted env .startless w .process := by
    intro m' queue' hq'
    obtain ⟨rfl, rfl⟩ : m = m' ∧ queue = queue' := by simpa [hqueue] using hq'
    exact ⟨hnone, fun _ _ => trivial, fun _ _ _ _ _ _ => trivial, fun _ _ _ _ _ => trivial⟩
  by_contra hne
  obtain ⟨x, hx⟩ := Option.ne_none_iff_exists'.mp hne
  have hold := (act_ticks hr hadm).find?_startless hx
  have hsound : Sound env { w with queue := queue } :=
    (Tick.dequeued w m queue hqueue : Tick env .free w _).sound hr.toSound
  simp only [act, process, hqueue] at hx
  have hgone := onMessage_removes (w := { w with queue := queue }) (m := m) (k := k) hsound
    (hall (k, x) (OrderedMap.mem_entries.mpr hold))
  rw [hgone] at hx
  cases hx

theorem Kept.act (hq : env.Quiet) (hr : Reached env w) (hk : Kept env w) {a : Action}
    (ha : Orderly env w a) : Kept env (w.act env a) := by
  have quiet (c : ℕ) (h : Admitted env (orderlyGuard c []) w a) : Kept env (w.act env a) :=
    hk.calm hq (act_ticks hr h) fun _ _ hr he => by cases hr.2 _ he
  cases a with
  | process =>
    cases hqueue : w.queue with
    | nil =>
      simp only [World.act, process, hqueue]
      exact hk
    | cons m queue =>
      obtain ⟨⟨hnodup, hfresh⟩, hlocal⟩ := ha m (by rw [hqueue]; rfl)
      have hthread := hr.queued m (by rw [hqueue]; exact List.mem_cons_self)
      have hadm : Admitted env (orderlyGuard m.handler (closedIds env w m)) w .process := by
        intro m' queue' hq'
        obtain ⟨rfl, rfl⟩ : m = m' ∧ queue = queue' := by simpa [hqueue] using hq'
        exact ⟨⟨hnodup, fun id hid => ⟨(hfresh id hid).2, rfl, (hfresh id hid).1⟩⟩,
          fun e he => ⟨rfl, he⟩, fun _ _ _ _ _ _ => trivial, fun _ _ _ _ _ => trivial⟩
      by_cases hclose : (w.controls m.handler).observer = true ∧ env.peerId ∈ closedIds env w m
      · -- the local close leaves nothing behind
        obtain ⟨hnone, hall⟩ := hlocal hclose.1 hclose.2
        exact hk.emptied hq (act_ticks hr hadm) (hr.observed _ hclose.1 hthread)
          (onMessage_empties hr hqueue hnone hall)
      · refine hk.calm hq (act_ticks hr hadm) fun c e hraises he => ?_
        obtain ⟨rfl, hid⟩ := hraises
        exact ⟨hr.thread_lt hthread, by simpa [hid _ he] using hclose⟩
  | callback x cb => exact quiet (w.insts x).control ⟨ha, fun e he => ⟨rfl, he⟩⟩
  | api a => exact quiet 0 trivial
  | command message origin => exact quiet 0 trivial
  | net a => exact quiet 0 trivial

/-- A control that is destroyed has no open objects. -/
theorem Kept.releases (hq : env.Quiet) (hk : Kept env w) :
    Kept env w.releaseControls.releaseInsts := by
  refine ⟨hk.toTended.releases hq fun x hx hs _ => ⟨fun hd => ?_, trivial⟩, fun x hx hs => ?_⟩
  · have := hd.2.2
    simp [controlHeld, hk.attended x hx hs] at this
  · obtain ⟨hstate, hcontrol, -⟩ := released_same w x
    rw [hstate] at hs
    rw [hcontrol]
    exact hk.attended x hx hs

theorem kept_init (env : Env) : Kept env init :=
  ⟨⟨sound_init env, fun x hx => (by cases hx), fun x hx => (by cases hx)⟩, fun x hx => (by cases hx)⟩

theorem Kept.step (hq : env.Quiet) (hr : Reached env w) (hk : Kept env w) {a : Action}
    (ha : Orderly env w a) : Kept env (w.step env a) := by
  unfold World.step
  split_ifs
  · exact hk
  · exact (hk.act hq hr ha).releases hq

theorem kept_run (hq : env.Quiet) {as : List Action} (ha : Along (World.step env) (Orderly env) init as) :
    Kept env (run (World.step env) init as) :=
  (ha.invariant (P := fun w => Reached env w ∧ Kept env w)
    (fun _ a hw hr => ⟨hw.1.step a, hw.2.step hq hw.1 hr⟩) ⟨reached_init env, kept_init env⟩).2

/-- A control with its observer starts an id that it does not have: then everything is
closed, if all instances are for this id. -/
theorem Kept.all_closed (hk : Kept env w) {c : ℕ} {id : String}
    (ht : (w.controls c).thread = true) (ho : (w.controls c).observer = true)
    (hid : (w.controls c).peers.find? id = none)
    (hnamed : ∀ x, x < w.nextInst → (w.insts x).role.isSome = true → (w.insts x).remoteId = id)
    {x : ℕ} (hx : x < w.nextInst) : (w.insts x).state = .closed := by
  by_contra hs
  have hrole : (w.insts x).role.isSome = true := by
    rcases hk.insts x hx with hstarted | hrejected
    · exact hstarted.role
    · exact absurd hrejected.state hs
  have hcontrol := hk.attended x hx hs
  rw [hk.observed c ho ht] at hcontrol
  have hown := hk.owned x hx hs trivial
  rw [← Option.some.inj hcontrol, hnamed x hx hrole, hid] at hown
  cases hown

/-- In an orderly run every object that was started and not yet closed is the one
stored under its remote id, and only closed objects are released. -/
theorem no_orphans (env : Env) (hq : env.Quiet) (as : List Action)
    (ha : Along (step env) (Orderly env) init as) (x : ℕ)
    (hx : x < (run (step env) init as).nextInst) :
    (((run (step env) init as).insts x).role.isSome = true →
      .closing ∉ ((run (step env) init as).insts x).log →
      ((run (step env) init as).controls ((run (step env) init as).insts x).control).peers.find?
        ((run (step env) init as).insts x).remoteId = some x) ∧
    (((run (step env) init as).insts x).released = true →
      ((run (step env) init as).insts x).state = .closed) := by
  have hk := kept_run hq ha
  refine ⟨fun hrole hlog => hk.owned x hx ?_ trivial, fun hrel => ?_⟩
  · cases hk.phases x hx with
    | rejected h log => simp [h.role] at hrole
    | live h log => rcases h.state with hs | hs <;> simp [hs]
    | closed h =>
      obtain ⟨pre, mid, post, code, heq, -⟩ := h.log
      exact absurd (by simp [heq]) hlog
  · by_contra hs
    have hheld := (hk.entries _ _ x (hk.owned x hx hs trivial)).held
    rw [hrel] at hheld
    cases hheld

/-- One connection, closed by the user before its offer is ready. -/
def closedEarly : List Action :=
  [.api .open, .net (.connectInternal true), .net (.onOpen 0),
    .command (createOfferMessage ["b"]) none, .process, .api (.close "b"), .process,
    .callback 0 (.onSuccess (some "v=0"))]

theorem no_orphans_closedEarly :
    ((run (step (Env.idle "a" (by decide))) init closedEarly).insts 0).released = true ∧
    ((run (step (Env.idle "a" (by decide))) init closedEarly).insts 0).state = .closed := by
  have h := no_orphans (Env.idle "a" (by decide)) (fun _ _ h => by cases h) closedEarly
    (by decide +kernel) 0 (by decide +kernel)
  exact ⟨by decide +kernel, h.2 (by decide +kernel)⟩

/-- The server asks twice for an offer to the same peer, and the second offer fails. -/
def offeredTwice : List Action :=
  [.api .open, .net (.connectInternal true), .net (.onOpen 0),
    .command (createOfferMessage ["b"]) none, .process,
    .command (createOfferMessage ["b"]) none, .process, .callback 1 .onFailure]

/-- The second object is released in state `pConnecting`, and `peers_` has the first. -/
theorem offeredTwice_orphan :
    ((run (step (Env.idle "a" (by decide))) init offeredTwice).insts 1).released = true ∧
    ((run (step (Env.idle "a" (by decide))) init offeredTwice).insts 1).state = .connecting ∧
    ((run (step (Env.idle "a" (by decide))) init offeredTwice).insts 1).log.isEmpty = true ∧
    ((run (step (Env.idle "a" (by decide))) init offeredTwice).controls 0).peers.find? "b" = some 0 := by
  decide +kernel

end PeerApi.World
