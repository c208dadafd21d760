import PeerApi.Session.CloseAll

/-! What an `Open` whose `InitializeControl` fails leaves behind. The constructor of
`Control` has connected it to the signals of `Signal`, and `RegisterObserver` has made
it hold itself. `Peer::Open` only resets its own pointer then, so the control keeps
itself alive and connected for ever. -/

namespace PeerApi.World

open Base

variable {env : Env} {w w' : World}

/-- Of the controls made so far, those whose `CreatePeerFactory` failed are neither
installed nor connected to the signals. -/
def NoTrace (env : Env) (w : World) : Prop :=
  ∀ c < w.nextControl, env.createPeerFactory c = false → w.control ≠ some c ∧ c ∉ w.subscribed

/-- A control has its thread when `CreatePeerFactory` succeeded, and else it holds
itself. -/
def Leftovers (env : Env) (w : World) : Prop :=
  ∀ c < w.nextControl, (w.controls c).thread = env.createPeerFactory c ∧
    (env.createPeerFactory c = false →
      (w.controls c).ref = true ∧ (w.controls c).destroyed = false)

theorem Leftovers.sessions (h : Leftovers env w) (hs : SameSessions w w') : Leftovers env w' := by
  intro c hc
  rw [hs.nextControl] at hc
  have hthread := congrArg Control.thread (hs.controls c)
  have href := congrArg Control.ref (hs.controls c)
  have hdestroyed := congrArg Control.destroyed (hs.controls c)
  dsimp only at hthread href hdestroyed
  rw [hthread, href, hdestroyed]
  exact h c hc

/-- A control that is made has the next number; the others stay as they are. -/
theorem Leftovers.made (h : Leftovers env w) (k : Control) (control : Option ℕ)
    (signal : Option Signal) (hthread : k.thread = env.createPeerFactory w.nextControl)
    (hleft : env.createPeerFactory w.nextControl = false → k.ref = true ∧ k.destroyed = false) :
    Leftovers env { w with
      nextControl := w.nextControl + 1, control := control, signal := signal
      controls := Function.update w.controls w.nextControl k } := by
  intro c hc
  dsimp only at hc ⊢
  by_cases he : c = w.nextControl
  · subst he
    rw [Function.update_self]
    exact ⟨hthread, hleft⟩
  · rw [Function.update_of_ne he]
    exact h c (by omega)

theorem Leftovers.modify (h : Leftovers env w) (d : ℕ) {g : Control → Control}
    (hthread : ∀ k, (g k).thread = k.thread) (hdestroyed : ∀ k, (g k).destroyed = k.destroyed)
    (href : env.createPeerFactory d = false → ∀ k, (g k).ref = k.ref) :
    Leftovers env (w.modifyControl d g) := by
  intro c hc
  obtain ⟨h1, h2⟩ := h c hc
  rw [modifyControl_controls]
  split_ifs with hd
  · subst hd
    rw [hthread, hdestroyed]
    exact ⟨h1, fun hf => ⟨(href hf _).trans (h2 hf).1, (h2 hf).2⟩⟩
  · exact ⟨h1, h2⟩

theorem Leftovers.move {src : ℕ → Effect → Prop} (h : Leftovers env w) (hm : Move env src w w')
    (hw : Sound env w) : Leftovers env w' := by
  have hfresh := hw.fresh w.nextControl le_rfl
  cases hm with
  | opened s free made =>
    have hk := h.made { Control.unborn with
      observer := true, ref := true, thread := true, peerName := env.peerId,
      userId := env.signalId } (some w.nextControl) s made.symm
      (fun hf => by rw [made] at hf; cases hf)
    simpa only [modifyControl, newControl, Function.update_self, Function.update_idem, hfresh]
      using hk
  | failed s free failed =>
    have hk := h.made { Control.unborn with observer := true, ref := true } none s failed.symm
      (fun _ => ⟨rfl, rfl⟩)
    simpa only [modifyControl, newControl, hfresh] using hk
  | session c sessionId thread => exact h.modify c (fun _ => rfl) (fun _ => rfl) (fun _ _ => rfl)
  | _ => exact h

/-- Only the installed control is dropped, and it has its thread. -/
theorem Leftovers.event {c : ℕ} {source : Option ℕ} {e : Event} (h : Leftovers env w)
    (hm : EventMove env c source e w w') (hw : Sound env w) : Leftovers env w' := by
  cases hm with
  | move hm => exact h.move hm hw
  | dropped d hd he =>
    have hthread := (hw.installed d hd).2.2
    have hmade : env.createPeerFactory d = true := (h d (hw.thread_lt hthread)).1 ▸ hthread
    have hk := h.modify d (g := fun k => { k with observer := false, ref := false })
      (fun _ => rfl) (fun _ => rfl) (fun hf => by rw [hmade] at hf; cases hf)
    exact hk
  | _ => exact h

theorem Leftovers.releases (h : Leftovers env w) :
    Leftovers env w.releaseControls.releaseInsts := by
  intro c hc
  obtain ⟨h1, h2⟩ := h c hc
  refine ⟨(releaseControls_keeps (·.thread) (fun _ => rfl) c).trans h1, fun hf => ?_⟩
  have hstays : ¬ w.Dying c := by
    rintro ⟨-, -, hheld⟩
    simp [controlHeld, (h2 hf).1] at hheld
  have he : w.releaseControls.releaseInsts.controls c = w.controls c := releaseControls_stays hstays
  rw [he]
  exact h2 hf

theorem leftovers_run (env : Env) (as : List Action) :
    Leftovers env (run (World.step env) init as) :=
  run_of_moves (fun _ hc => by cases hc) (fun hm hw h => h.move hm hw)
    (fun hm hw h => h.event hm hw) (fun hs h => h.sessions hs) (fun h => h.releases) as

theorem mem_subscribed {c : ℕ} :
    c ∈ w.subscribed ↔ c < w.nextControl ∧ (w.controls c).destroyed = false := by
  simp [subscribed]

/-- A control of a failed `Open` stays connected. -/
theorem Leftovers.subscribed (h : Leftovers env w) {c : ℕ} (hc : c < w.nextControl)
    (failed : env.createPeerFactory c = false) : c ∈ w.subscribed :=
  mem_subscribed.mpr ⟨hc, ((h c hc).2 failed).2⟩

/-! ### Calls of `Open` -/

theorem peerOpen_failed (hc : w.control = none)
    (failed : env.createPeerFactory w.nextControl = false) :
    (w.peerOpen env).control = none ∧ (w.peerOpen env).nextControl = w.nextControl + 1 := by
  simp [peerOpen, hc, failed, newControl, modifyControl]

/-- The first `Open` starts to connect without waiting for anything. -/
theorem peerOpen_first (made : env.createPeerFactory 0 = true) :
    (init.peerOpen env).control = some 0 ∧ (init.peerOpen env).nextControl = 1 := by
  simp [peerOpen, init, made, newControl, modifyControl, signalCall, Signal.openWith,
    Signal.connect, Signal.cancelTimer, Signal.init, Signal.startLoop]

/-- After calls of `Open` only: nothing has happened, the first has opened the
session, or one has failed. -/
theorem opens_cases (env : Env) (n : ℕ) :
    run (World.step env) init (List.replicate n (.api .open)) = init ∨
    ((run (World.step env) init (List.replicate n (.api .open))).control = some 0 ∧
      (run (World.step env) init (List.replicate n (.api .open))).nextControl = 1) ∨
    ∃ c < (run (World.step env) init (List.replicate n (.api .open))).nextControl,
      env.createPeerFactory c = false := by
  induction n with
  | zero => exact Or.inl rfl
  | succ n ih =>
    rw [List.replicate_succ', run_append, run_cons, run_nil]
    have hw := reached_run env (List.replicate n (.api .open))
    generalize run (World.step env) init (List.replicate n (.api .open)) = w at hw ih
    rcases ih with rfl | ⟨hc, hn⟩ | ⟨c, hc, failed⟩
    · right
      cases made : env.createPeerFactory 0 with
      | true => exact Or.inl (peerOpen_first made)
      | false =>
        obtain ⟨-, h2⟩ := peerOpen_failed (w := init) rfl made
        exact Or.inr ⟨0, h2 ▸ Nat.zero_lt_succ _, made⟩
    · right
      left
      unfold World.step
      split_ifs
      · exact ⟨hc, hn⟩
      · simp [act, api, *, peerOpen, releaseControls, releaseInsts]
    · right
      right
      refine ⟨c, hc.trans_le ?_, failed⟩
      rcases step_ticks hw (admitted_free env w (.api .open)) with hs | ⟨-, ht, hs⟩
      · rw [hs]
      · rw [hs]
        exact ht.grows.controls

/-- In every run, no control of a failed `Open` is left connected exactly when no
`Open` has failed; and after calls of `Open` only, exactly then the commands of the
server go to the installed control alone. A failed call leaves `control_` empty. -/
theorem failed_open_iff (env : Env) :
    (∀ as, NoTrace env (run (World.step env) init as) ↔
      ∀ c < (run (World.step env) init as).nextControl, env.createPeerFactory c = true) ∧
    (∀ n, let w := run (World.step env) init (List.replicate n (.api .open))
      w.subscribed = w.control.toList ↔ ∀ c < w.nextControl, env.createPeerFactory c = true) ∧
    ∀ w : World, w.control = none → env.createPeerFactory w.nextControl = false →
      (w.peerOpen env).control = none := by
  refine ⟨fun as => ⟨fun h c hc => ?_, fun h c hc failed => ?_⟩, fun n => ?_,
    fun w hc failed => (peerOpen_failed hc failed).1⟩
  · by_contra hne
    have failed : env.createPeerFactory c = false := by simpa using hne
    exact (h c hc failed).2 ((leftovers_run env as).subscribed hc failed)
  · rw [h c hc] at failed
    cases failed
  · intro w
    have hw : Reached env w := reached_run env _
    have hleft : Leftovers env w := leftovers_run env _
    have hstand : Standing w := standing_run env _
    constructor
    · intro hs c hc
      by_contra hne
      have failed : env.createPeerFactory c = false := by simpa using hne
      have hmem := hleft.subscribed hc failed
      rw [hs, Option.mem_toList] at hmem
      -- the installed control has its thread
      have hthread := (hw.installed c hmem).2.2
      rw [(hleft c hc).1, failed] at hthread
      cases hthread
    · intro hall
      rcases opens_cases env n with he | ⟨hc, hn⟩ | ⟨c, hc, failed⟩
      · have he' : w = init := he
        rw [he']
        rfl
      · have hc' : w.control = some 0 := hc
        have hn' : w.nextControl = 1 := hn
        simp [subscribed, hc', hn', hstand 0 hc', List.range_succ]
      · rw [hall c hc] at failed
        cases failed

/-- An environment in which the first `Open` fails. -/
def unlucky : Env := { Env.alone with createPeerFactory := fun c => c ≠ 0 }

/-- After a failed `Open` and a successful one, two controls are connected, and the
first command of the server crashes the one without a thread. -/
theorem failed_open_stays :
    ¬ NoTrace unlucky (run (World.step unlucky) init [.api .open]) ∧
      (run (World.step unlucky) init [.api .open, .api .open]).control = some 1 ∧
      (run (World.step unlucky) init [.api .open, .api .open]).subscribed = [0, 1] ∧
      (run (World.step unlucky) init [.api .open, .api .open,
        .command (channelCreateMessage "a" true) none]).fault = some .noThread := by
  refine ⟨fun h => ?_, by decide +kernel, by decide +kernel, by decide +kernel⟩
  exact (h 0 (by decide +kernel) (by decide +kernel)).2 (by decide +kernel)

end PeerApi.World
