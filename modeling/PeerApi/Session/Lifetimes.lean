import PeerApi.Session.Upholds
import PeerApi.Session.DeadEntries

/-! Who keeps whom alive. A control is held by the peer, by itself while it has an
observer, and by the messages that were posted while it held itself; its destructor
clears `peers_` and the messages that are left for it. So what is queued or registered
is always about a control that stands, and after the local close a control goes with
the messages that were queued by then. -/

namespace PeerApi.World

open Base Relation

variable {env : Env} {w w' : World}

/-! ### Nothing refers to a destroyed control -/

structure Sheltered (w : World) : Prop where
  standing : Standing w
  handlers : ∀ m ∈ w.queue, (w.controls m.handler).destroyed = false
  registries : ∀ c, (w.controls c).destroyed = true → (w.controls c).peers = ∅

theorem sheltered_init : Sheltered init where
  standing _ h := by cases h
  handlers _ h := by cases h
  registries _ h := by cases h

theorem Sheltered.crash (h : Sheltered w) (f : Fault) : Sheltered (w.crash f) :=
  ⟨h.standing, h.handlers, h.registries⟩

/-- A control is changed or made, and is not destroyed by it. -/
theorem Sheltered.modify (h : Sheltered w) (control : Option ℕ) (signal : Option Signal)
    (nextControl d : ℕ) (k : Control) (hk : k.destroyed = (w.controls d).destroyed)
    (hpeers : k.destroyed = true → k.peers = ∅)
    (hcontrol : ∀ c, control = some c → w.control = some c ∨ c = d ∧ k.destroyed = false) :
    Sheltered { w with
      control := control, signal := signal, nextControl := nextControl
      controls := Function.update w.controls d k } := by
  have hdestroyed : ∀ c,
      (Function.update w.controls d k c).destroyed = (w.controls c).destroyed := by
    intro c
    by_cases hc : c = d
    · rw [hc, Function.update_self, hk]
    · rw [Function.update_of_ne hc]
  refine ⟨fun c hc => ?_, fun m hm => ?_, fun c hc => ?_⟩
  · rcases hcontrol c hc with hc | ⟨rfl, hnew⟩
    · exact (hdestroyed c).trans (h.standing c hc)
    · exact (hdestroyed c).trans (hk.symm.trans hnew)
  · exact (hdestroyed _).trans (h.handlers m hm)
  · dsimp only at hc ⊢
    by_cases hcd : c = d
    · subst hcd
      rw [Function.update_self] at hc ⊢
      exact hpeers hc
    · rw [Function.update_of_ne hcd] at hc ⊢
      exact h.registries c hc

theorem sheltered_upholds (env : Env) : Upholds env Sheltered where
  same {w w'} h hs := by
    have hdestroyed c : (w'.controls c).destroyed = (w.controls c).destroyed := by
      have := congrArg Control.destroyed (hs.controls c)
      exact this
    have hpeers c : (w'.controls c).peers = (w.controls c).peers := by
      have := congrArg Control.peers (hs.controls c)
      exact this
    refine ⟨fun c hc => ?_, fun m hm => ?_, fun c hc => ?_⟩
    · rw [hdestroyed]
      exact h.standing c (hs.control ▸ hc)
    · rw [hdestroyed]
      exact h.handlers m (hs.queue ▸ hm)
    · rw [hpeers]
      exact h.registries c (hdestroyed c ▸ hc)
  peers {w c} g h hd := by
    exact h.modify w.control w.signal w.nextControl c _ rfl (fun hc => absurd hc (by simp [hd]))
      fun _ hc => Or.inl hc
  post {w} m h ht hd _ := by
    refine ⟨h.standing, fun m' hm' => ?_, h.registries⟩
    rcases List.mem_append.mp hm' with hm' | hm'
    · exact h.handlers m' hm'
    · rw [List.mem_singleton.mp hm']
      exact hd.elim id (h.standing m.handler)
  deadlock h := h.crash _
  nullControl h := h.crash _
  nullSignal h := h.crash _
  noThread h _ _ := h.crash _
  opened {w} s h hw hfree made := by
    have hfresh := hw.fresh w.nextControl le_rfl
    have hk := h.modify (some w.nextControl) s (w.nextControl + 1) w.nextControl
      { Control.unborn with
        observer := true, ref := true, thread := true, peerName := env.peerId
        userId := env.signalId } (by rw [hfresh]) (fun _ => rfl)
      fun _ hc => Or.inr ⟨(Option.some.inj hc).symm, rfl⟩
    simpa only [modifyControl, newControl, Function.update_self, Function.update_idem, hfresh]
      using hk
  failed {w} s h hw hfree failed := by
    have hfresh := hw.fresh w.nextControl le_rfl
    have hk := h.modify none s (w.nextControl + 1) w.nextControl
      { Control.unborn with observer := true, ref := true } (by rw [hfresh]) (fun _ => rfl)
      fun _ hc => by cases hc
    simpa only [modifyControl, newControl, hfresh] using hk
  dropped {w d} h hd := by
    exact h.modify none w.signal w.nextControl d _ rfl (h.registries d) fun _ hc => by cases hc

theorem Sheltered.releases (h : Sheltered w) : Sheltered w.releaseControls.releaseInsts where
  standing := h.standing.releases
  handlers m hm := by
    have hstays : ¬ w.Dying m.handler := by
      intro hd
      have hf := (List.mem_filter.mp (show m ∈ w.releaseControls.queue from hm)).2
      simp [hd.1, hd.2.1, hd.2.2] at hf
    have he : w.releaseControls.releaseInsts.controls m.handler = w.controls m.handler :=
      releaseControls_stays hstays
    rw [he]
    exact h.handlers m (releaseControls_queue hm)
  registries c hc := by
    have he : w.releaseControls.releaseInsts.controls c = w.releaseControls.controls c := rfl
    rw [he] at hc ⊢
    by_cases hd : w.Dying c
    · rw [releaseControls_dying hd]
    · rw [releaseControls_stays hd] at hc ⊢
      exact h.registries c hc

/-- The two crashes that depend on the action are avoided, or do not matter. -/
def MayAct (env : Env) (P : World → Prop) (w : World) : Action → Prop
  | .process => ∀ m ∈ w.queue.head?, MaySpeak env P w m
  | .callback x cb => x < w.nextInst → (w.insts x).released = false → MayCall P w x cb
  | _ => True

theorem Upholds.process {P : World → Prop} (hP : Upholds env P) (hempty : w.queue = [] → P w)
    (hdequeue : ∀ m queue, w.queue = m :: queue → P { w with queue := queue })
    (hw : Reached env w) (hsheltered : Sheltered w) (ha : MayAct env P w .process) :
    P (w.act env .process) := by
  cases hq : w.queue with
  | nil =>
    simp only [World.act, World.process, hq]
    exact hempty hq
  | cons m queue =>
    have hm : m ∈ w.queue := by rw [hq]; exact List.mem_cons_self
    have hd : Tick env .free w { w with queue := queue } := .dequeued w m queue hq
    simp only [World.act, World.process, hq]
    exact hP.onMessage (hdequeue m queue hq) (hd.sound hw.toSound) (hw.queued m hm)
      (hsheltered.handlers m hm) (ha m (by rw [hq]; rfl))

/-- What is upheld survives everything but the dispatch of messages. -/
theorem Upholds.other {P : World → Prop} (hP : Upholds env P) (h : P w) (hw : Reached env w)
    {a : Action} (ha : MayAct env P w a) (hne : a ≠ .process) : P (w.act env a) := by
  cases a with
  | api a => exact hP.api h hw.toSound a
  | command message origin => exact hP.signalOnCommandReceived h message origin
  | net a => exact hP.net h a
  | process => exact absurd rfl hne
  | callback x cb =>
    by_cases hx : x < w.nextInst ∧ (w.insts x).released = false
    · exact hP.callback h hw hx (ha hx.1 hx.2)
    · simp only [World.act, if_neg hx]
      exact h

/-- What is upheld, and does not mind that a message is taken from the queue, survives
a step up to its releases. -/
theorem Upholds.act {P : World → Prop} (hP : Upholds env P) (h : P w)
    (hdequeue : ∀ m queue, w.queue = m :: queue → P { w with queue := queue })
    (hw : Reached env w) (hsheltered : Sheltered w) {a : Action} (ha : MayAct env P w a) :
    P (w.act env a) := by
  by_cases hp : a = .process
  · subst hp
    exact hP.process (fun _ => h) hdequeue hw hsheltered ha
  · exact hP.other h hw ha hp

/-- Where the two crashes do not matter. -/
theorem mayAct_of_tolerates {P : World → Prop} (ho : Tolerates P .nullObserver)
    (hd : Tolerates P .danglingControl) (a : Action) : MayAct env P w a := by
  cases a with
  | process => exact fun m _ => Or.inr (Or.inr ho)
  | callback x cb => exact fun _ _ => Or.inr (Or.inr hd)
  | _ => trivial

theorem Sheltered.act (h : Sheltered w) (hw : Reached env w) (a : Action) :
    Sheltered (w.act env a) := by
  refine (sheltered_upholds env).act h (fun m queue hq => ?_) hw h
    (mayAct_of_tolerates (fun h => h.crash _) (fun h => h.crash _) a)
  refine ⟨h.standing, fun m' hm' => h.handlers m' ?_, h.registries⟩
  rw [hq]
  exact List.mem_cons_of_mem m hm'

theorem Sheltered.step (h : Sheltered w) (hw : Reached env w) (a : Action) :
    Sheltered (w.step env a) := by
  unfold World.step
  split_ifs
  · exact h
  · exact (h.act hw a).releases

theorem sheltered_run (env : Env) (as : List Action) :
    Sheltered (run (World.step env) init as) := by
  have hstep : ∀ w a, Reached env w ∧ Sheltered w →
      Reached env (w.step env a) ∧ Sheltered (w.step env a) :=
    fun w a h => ⟨h.1.step a, h.2.step h.1 a⟩
  exact (run_invariant hstep ⟨reached_init env, sheltered_init⟩ as).2

/-! ### Nothing unreferenced is left -/

/-- Between steps, what nothing holds has been destroyed or released. -/
structure Held (w : World) : Prop where
  controls : ∀ c < w.nextControl, (w.controls c).destroyed = false → w.controlHeld c = true
  insts : ∀ x < w.nextInst, (w.insts x).released = false → w.instHeld x = true

theorem held_releases (w : World) : Held w.releaseControls.releaseInsts where
  controls c hc hd := by
    have hstays : ¬ w.Dying c := by
      intro hdying
      have he : w.releaseControls.releaseInsts.controls c = w.releaseControls.controls c := rfl
      rw [he, releaseControls_dying hdying] at hd
      cases hd
    have he : w.releaseControls.releaseInsts.controls c = w.controls c :=
      releaseControls_stays hstays
    have hheld : w.controlHeld c = true := by
      by_contra hn
      exact hstays ⟨hc, by rwa [he] at hd, by simpa using hn⟩
    have hq : (w.queue.any fun m => m.handler = c && m.data.ref) = true →
        (w.releaseControls.queue.any fun m => m.handler = c && m.data.ref) = true := by
      intro hany
      obtain ⟨m, hm, hmc⟩ := List.any_eq_true.mp hany
      refine List.any_eq_true.mpr ⟨m, List.mem_filter.mpr ⟨hm, ?_⟩, hmc⟩
      have hhandler : m.handler = c := by simpa using (Bool.and_eq_true_iff.mp hmc).1
      simp [hhandler, hheld]
    simp only [controlHeld, he, Bool.or_eq_true] at hheld ⊢
    exact hheld.imp_right hq
  insts x hx hr := by
    have hstays : ¬ w.releaseControls.Lost x := by
      intro hl
      rw [releaseInsts_lost hl] at hr
      cases hr
    have hheld : w.releaseControls.instHeld x = true := by
      by_contra hn
      exact hstays ⟨hx, by simpa using hn⟩
    have he : w.releaseControls.releaseInsts.insts x = w.releaseControls.insts x :=
      releaseInsts_stays hstays
    simp only [instHeld, he]
    exact hheld

theorem held_run (env : Env) (as : List Action) : Held (run (World.step env) init as) := by
  refine run_invariant (fun w a h => ?_) ⟨fun c hc => (by cases hc), fun x hx => (by cases hx)⟩ as
  unfold World.step
  split_ifs
  · exact h
  · exact held_releases _

/-! ### After the local close -/

/-- A control that is not installed any more has let go of itself, unless its `Open`
failed. -/
def Dismissed (env : Env) (w : World) : Prop :=
  ∀ c < w.nextControl, env.createPeerFactory c = true → w.control ≠ some c →
    (w.controls c).ref = false

theorem Dismissed.made (h : Dismissed env w) (free : w.control = none) (k : Control)
    (control : Option ℕ) (signal : Option Signal)
    (hk : env.createPeerFactory w.nextControl = true → control = some w.nextControl) :
    Dismissed env { w with
      nextControl := w.nextControl + 1, control := control, signal := signal
      controls := Function.update w.controls w.nextControl k } := by
  intro c hc hmade hne
  dsimp only at hc hne ⊢
  by_cases he : c = w.nextControl
  · subst he
    exact absurd (hk hmade) hne
  · rw [Function.update_of_ne he]
    exact h c (by omega) hmade (by simp [free])

theorem Dismissed.move {src : ℕ → Effect → Prop} (h : Dismissed env w) (hm : Move env src w w')
    (hw : Sound env w) : Dismissed env w' := by
  have hfresh := hw.fresh w.nextControl le_rfl
  cases hm with
  | opened s free made =>
    have hk := h.made free { Control.unborn with
      observer := true, ref := true, thread := true, peerName := env.peerId,
      userId := env.signalId } (some w.nextControl) s fun _ => rfl
    simpa only [modifyControl, newControl, Function.update_self, Function.update_idem, hfresh]
      using hk
  | failed s free failed =>
    have hk := h.made free { Control.unborn with observer := true, ref := true } none s
      fun hf => by rw [failed] at hf; cases hf
    simpa only [modifyControl, newControl, hfresh] using hk
  | session d sessionId thread =>
    intro c hc hmade hne
    rw [modifyControl_controls]
    split_ifs with hd
    · subst hd
      exact h c hc hmade hne
    · exact h c hc hmade hne
  | _ => exact h

theorem Dismissed.event {c : ℕ} {source : Option ℕ} {e : Event} (h : Dismissed env w)
    (hm : EventMove env c source e w w') (hw : Sound env w) : Dismissed env w' := by
  cases hm with
  | move hm => exact h.move hm hw
  | dropped d hd he =>
    intro c hc hmade _
    have hcontrols :
        (w.modifyControl d fun k => { k with observer := false, ref := false }).controls c =
          if c = d then { w.controls d with observer := false, ref := false }
          else w.controls c := modifyControl_controls ..
    dsimp only
    rw [hcontrols]
    split_ifs with hcd
    · rfl
    · refine h c hc hmade fun hcontrol => hcd ?_
      rw [hd] at hcontrol
      exact (Option.some.inj hcontrol).symm
  | _ => exact h

theorem Dismissed.sessions (h : Dismissed env w) (hs : SameSessions w w') : Dismissed env w' := by
  intro c hc hmade hne
  have href := congrArg Control.ref (hs.controls c)
  dsimp only at href
  rw [href]
  exact h c (hs.nextControl ▸ hc) hmade (hs.control ▸ hne)

theorem dismissed_run (env : Env) (as : List Action) :
    Dismissed env (run (World.step env) init as) := by
  refine run_of_moves (fun _ hc => (by cases hc)) (fun hm hw h => h.move hm hw)
    (fun hm hw h => h.event hm hw) (fun hs h => h.sessions hs) (fun {w} h c hc hmade hne => ?_) as
  have hkeeps : (w.releaseControls.controls c).ref = (w.controls c).ref :=
    releaseControls_keeps (·.ref) (fun _ => rfl) c
  exact hkeeps.trans (h c hc hmade hne)

/-- Neither the peer nor the control itself holds the control, and no message after the
next `n` does. -/
structure Parting (c n : ℕ) (w : World) : Prop where
  made : c < w.nextControl
  apart : w.control ≠ some c
  loose : (w.controls c).ref = false
  last : ∀ m ∈ w.queue.drop n, m.handler = c → m.data.ref = false

variable {c n : ℕ}

theorem Parting.crash (h : Parting c n w) (f : Fault) : Parting c n (w.crash f) :=
  ⟨h.made, h.apart, h.loose, h.last⟩

/-- Another control is made or changed, or this one without its reference to itself. -/
theorem Parting.modify (h : Parting c n w) (control : Option ℕ) (signal : Option Signal)
    (nextControl d : ℕ) (k : Control) (hn : w.nextControl ≤ nextControl)
    (hcontrol : control ≠ some c) (hk : d = c → k.ref = false) :
    Parting c n { w with
      control := control, signal := signal, nextControl := nextControl
      controls := Function.update w.controls d k } := by
  refine ⟨h.made.trans_le hn, hcontrol, ?_, h.last⟩
  dsimp only
  by_cases hd : c = d
  · rw [hd, Function.update_self]
    exact hk hd.symm
  · rw [Function.update_of_ne hd]
    exact h.loose

/-- A message that is posted later takes its reference from a control that has none. -/
theorem parting_upholds (env : Env) (c n : ℕ) : Upholds env (Parting c n) where
  same {w w'} h hs := by
    have href := congrArg Control.ref (hs.controls c)
    refine ⟨hs.nextControl ▸ h.made, hs.control ▸ h.apart, href.trans h.loose, ?_⟩
    rw [hs.queue]
    exact h.last
  peers {w d} g h _ := by
    refine h.modify w.control w.signal w.nextControl d _ le_rfl h.apart fun hd => ?_
    rw [hd]
    exact h.loose
  post {w} m h _ _ href := by
    refine ⟨h.made, h.apart, h.loose, fun m' hm' hc => ?_⟩
    rw [List.drop_append] at hm'
    rcases List.mem_append.mp hm' with hm' | hm'
    · exact h.last m' hm' hc
    · rw [List.mem_singleton.mp (List.mem_of_mem_drop hm')] at hc ⊢
      rw [href, hc]
      exact h.loose
  deadlock h := h.crash _
  nullControl h := h.crash _
  nullSignal h := h.crash _
  noThread h _ _ := h.crash _
  opened {w} s h hw _ _ := by
    have hne : w.nextControl ≠ c := by
      have := h.made
      omega
    have hk := h.modify (some w.nextControl) s (w.nextControl + 1) w.nextControl
      { w.controls w.nextControl with
        observer := true, ref := true, thread := true, peerName := env.peerId
        userId := env.signalId } (Nat.le_succ _) (by simpa using hne) fun hc => absurd hc hne
    simpa only [modifyControl, newControl, Function.update_self, Function.update_idem] using hk
  failed {w} s h hw _ _ := by
    have hne : w.nextControl ≠ c := by
      have := h.made
      omega
    exact h.modify none s (w.nextControl + 1) w.nextControl _ (Nat.le_succ _) (by simp)
      fun hc => absurd hc hne
  dropped {w d} h _ :=
    h.modify none w.signal w.nextControl d _ le_rfl (by simp) fun _ => rfl

/-- Filtering a list brings nothing to its later part. -/
theorem mem_drop_of_filter {α : Type*} {p : α → Bool} {xs : List α} {n : ℕ} {x : α}
    (h : x ∈ (xs.filter p).drop n) : x ∈ xs.drop n := by
  rw [← List.take_append_drop n xs, List.filter_append, List.drop_append,
    List.drop_eq_nil_of_le ((List.length_filter_le _ _).trans (List.length_take_le _ _)),
    List.nil_append] at h
  exact List.mem_of_mem_filter (List.mem_of_mem_drop h)

theorem Parting.releases (h : Parting c n w) : Parting c n w.releaseControls.releaseInsts := by
  refine ⟨h.made, h.apart, ?_, fun m hm => h.last m (mem_drop_of_filter hm)⟩
  have hkeeps : (w.releaseControls.controls c).ref = (w.controls c).ref :=
    releaseControls_keeps (·.ref) (fun _ => rfl) c
  exact hkeeps.trans h.loose

theorem parting_mayAct (env : Env) (c n : ℕ) (w : World) (a : Action) :
    MayAct env (Parting c n) w a :=
  mayAct_of_tolerates (fun h => h.crash _) (fun h => h.crash _) a

/-- A dispatch takes one of the messages that may hold the control. -/
theorem Parting.process (h : Parting c (n + 1) w) (hw : Reached env w) (ha : Sheltered w) :
    Parting c n (w.act env .process) := by
  refine (parting_upholds env c n).process (fun hq => ⟨h.made, h.apart, h.loose, ?_⟩)
    (fun m queue hq => ⟨h.made, h.apart, h.loose, ?_⟩) hw ha (parting_mayAct env c n w _)
  · rw [hq, List.drop_nil]
    simp
  · have hlast := h.last
    rwa [hq] at hlast

theorem Parting.run (h : Parting c n w) (hw : Reached env w) (ha : Sheltered w)
    {bs : List Action} (hn : n ≤ bs.countP Action.isProcess)
    (hf : (Base.run (World.step env) w bs).fault = none) :
    Parting c 0 (Base.run (World.step env) w bs) := by
  induction bs generalizing w n with
  | nil =>
    obtain rfl : n = 0 := by simpa using hn
    exact h
  | cons a bs ih =>
    rw [run_cons] at hf ⊢
    have running : w.fault = none := running_of_run (a :: bs) hf
    have hw' := hw.step a
    have ha' := ha.step hw a
    rw [step_running running] at hf hw' ha' ⊢
    by_cases hp : a = .process
    · subst hp
      rw [List.countP_cons_of_pos rfl] at hn
      cases n with
      | zero =>
        have h' : Parting c 1 w := ⟨h.made, h.apart, h.loose, fun m hm => h.last m
          (List.mem_of_mem_drop (i := 1) hm)⟩
        exact ih (h'.process hw ha).releases hw' ha' (by omega) hf
      | succ n => exact ih (h.process hw ha).releases hw' ha' (by omega) hf
    · have hnot : ¬ a.isProcess = true := by
        cases a <;> simp [Action.isProcess] at hp ⊢
      rw [List.countP_cons_of_neg hnot] at hn
      have hact := (parting_upholds env c n).other h hw (parting_mayAct env c n w a) hp
      exact ih hact.releases hw' ha' hn hf

/-- Nothing holds it any more, so it is gone. -/
theorem Parting.destroyed (h : Parting c 0 w) (hheld : Held w) :
    (w.controls c).destroyed = true := by
  by_contra hd
  have hc := hheld.controls c h.made (by simpa using hd)
  simp only [controlHeld, h.loose, Bool.or_false, Bool.or_eq_true, decide_eq_true_eq,
    List.any_eq_true, Bool.and_eq_true] at hc
  rcases hc with hc | ⟨m, hm, hmc, href⟩
  · exact h.apart hc
  · have hlast := h.last m hm hmc
    rw [href] at hlast
    cases hlast

/-- The peer closes while it makes an offer, with a command of the server still
queued. -/
def closedOffering : List Action :=
  sessionOpen ++ [.command (createOfferMessage ["b"]) none, .process, .api (.close ""),
    .command (createOfferMessage ["c"]) none, .process]

end PeerApi.World
