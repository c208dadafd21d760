import PeerApi.Session.Inert
import PeerApi.Session.Lifetimes

/-! When the program is safe. Pointers are dereferenced without a test in a few places
only, and what they point to is there except in three situations: the user calls the
peer from outside a session, the server answers about a channel after the local close,
and a description arrives for an object whose control is destroyed. Provided that no
`Open` fails, a run that avoids these three at every step never touches a null or
dangling pointer; what remains is a join that does not end. -/

namespace PeerApi.World

open Base Relation

variable {env : Env} {w w' : World}

/-! ### Runs in which no `Open` fails -/

/-- Every control has its thread, and no crash comes from a missing thread, observer
or control. -/
structure Unharmed (w : World) : Prop where
  threads : ∀ c < w.nextControl, (w.controls c).thread = true
  fault : ∀ f, w.fault = some f → f ≠ .noThread ∧ ¬ f.Dangling

theorem unharmed_init : Unharmed init where
  threads _ h := by cases h
  fault _ h := by cases h

theorem Unharmed.crash (h : Unharmed w) {f : Fault} (hf : f ≠ .noThread ∧ ¬ f.Dangling) :
    Unharmed (w.crash f) := by
  refine ⟨h.threads, fun g hg => ?_⟩
  obtain rfl : f = g := Option.some.inj hg
  exact hf

/-- A control is changed or made, with its thread. -/
theorem Unharmed.modify (h : Unharmed w) (control : Option ℕ) (signal : Option Signal)
    (nextControl d : ℕ) (k : Control) (hn : nextControl ≤ w.nextControl ∨
      nextControl = w.nextControl + 1 ∧ d = w.nextControl)
    (hk : d < nextControl → k.thread = true) :
    Unharmed { w with
      control := control, signal := signal, nextControl := nextControl
      controls := Function.update w.controls d k } := by
  refine ⟨fun c hc => ?_, h.fault⟩
  dsimp only at hc ⊢
  by_cases hcd : c = d
  · rw [hcd, Function.update_self]
    exact hk (hcd ▸ hc)
  · rw [Function.update_of_ne hcd]
    exact h.threads c (by omega)

theorem unharmed_upholds (made : ∀ c, env.createPeerFactory c = true) : Upholds env Unharmed where
  same {w w'} h hs := by
    refine ⟨fun c hc => ?_, fun f hf => h.fault f (hs.fault ▸ hf)⟩
    have hthread := congrArg Control.thread (hs.controls c)
    exact hthread.trans (h.threads c (hs.nextControl ▸ hc))
  peers {w c} g h _ :=
    h.modify w.control w.signal w.nextControl c _ (Or.inl le_rfl) fun hc => h.threads c hc
  post m h _ _ _ := ⟨h.threads, h.fault⟩
  deadlock h := h.crash (by simp [Fault.Dangling])
  nullControl h := h.crash (by simp [Fault.Dangling])
  nullSignal h := h.crash (by simp [Fault.Dangling])
  noThread {w c} h hc ht := by
    rw [h.threads c (mem_subscribed.mp hc).1] at ht
    cases ht
  opened {w} s h _ _ _ := by
    have hk := h.modify (some w.nextControl) s (w.nextControl + 1) w.nextControl
      { w.controls w.nextControl with
        observer := true, ref := true, thread := true, peerName := env.peerId
        userId := env.signalId } (Or.inr ⟨rfl, rfl⟩) fun _ => rfl
    simpa only [modifyControl, newControl, Function.update_self, Function.update_idem] using hk
  failed {w} s _ _ _ failed := by
    rw [made] at failed
    cases failed
  dropped {w d} h _ :=
    h.modify none w.signal w.nextControl d _ (Or.inl le_rfl) fun hd => h.threads d hd

theorem Unharmed.releases (h : Unharmed w) : Unharmed w.releaseControls.releaseInsts := by
  refine ⟨fun c hc => ?_, h.fault⟩
  have hkeeps : (w.releaseControls.controls c).thread = (w.controls c).thread :=
    releaseControls_keeps (·.thread) (fun _ => rfl) c
  exact hkeeps.trans (h.threads c hc)

/-! ### Careful steps -/

/-- The user calls a peer that has its control, a reply about a channel finds the
observer, and a callback finds the control that it is passed on to. -/
def Careful (env : Env) (w : World) : Action → Prop
  | .api a => a = .open ∨ w.control.isSome = true
  | .process => ∀ m ∈ w.queue.head?, speaks env m = true → (w.controls m.handler).observer = true
  | .callback x cb => x < w.nextInst → (w.insts x).released = false →
      (w.controls (w.insts x).control).destroyed = true →
      ∀ f ∈ ((w.insts x).callback cb).2, reaches f = false
  | _ => True

instance (env : Env) (w : World) : (a : Action) → Decidable (Careful env w a)
  | .api a => inferInstanceAs (Decidable (a = .open ∨ w.control.isSome = true))
  | .process => inferInstanceAs (Decidable (∀ m ∈ w.queue.head?, speaks env m = true →
      (w.controls m.handler).observer = true))
  | .callback x cb => inferInstanceAs (Decidable (x < w.nextInst →
      (w.insts x).released = false → (w.controls (w.insts x).control).destroyed = true →
      ∀ f ∈ ((w.insts x).callback cb).2, reaches f = false))
  | .command _ _ => inferInstanceAs (Decidable True)
  | .net _ => inferInstanceAs (Decidable True)

theorem Careful.permitted {a : Action} (h : Careful env w a) : Permitted w a := by
  cases a with
  | api a => exact h
  | _ => trivial

theorem Careful.mayAct {a : Action} (h : Careful env w a) (P : World → Prop) :
    MayAct env P w a := by
  cases a with
  | process =>
    intro m hm
    by_cases hs : speaks env m = true
    · exact Or.inr (Or.inl (h m hm hs))
    · exact Or.inl (by simpa using hs)
  | callback x cb =>
    intro hx hr
    by_cases hd : (w.controls (w.insts x).control).destroyed = true
    · exact Or.inl (h hx hr hd)
    · exact Or.inr (Or.inl (by simpa using hd))
  | _ => trivial

/-- What every run keeps, and what it keeps as long as its steps are careful. -/
structure Safe (env : Env) (w : World) : Prop where
  reached : Reached env w
  sheltered : Sheltered w
  wired : Wired w
  unharmed : Unharmed w

theorem safe_init (env : Env) : Safe env init :=
  ⟨reached_init env, sheltered_init, wired_init, unharmed_init⟩

theorem Safe.step (h : Safe env w) (made : ∀ c, env.createPeerFactory c = true) {a : Action}
    (ha : w.fault = none → Careful env w a) : Safe env (w.step env a) := by
  refine ⟨h.reached.step a, h.sheltered.step h.reached a,
    h.wired.step h.reached fun hf => (ha hf).permitted, ?_⟩
  by_cases hf : w.fault = none
  · rw [step_running hf]
    refine Unharmed.releases ((unharmed_upholds made).act h.unharmed (fun m queue hq => ?_)
      h.reached h.sheltered ((ha hf).mayAct _))
    exact ⟨h.unharmed.threads, h.unharmed.fault⟩
  · have hcrashed : w.step env a = w := run_crashed hf [a]
    rw [hcrashed]
    exact h.unharmed

/-- The only crash that is left is a join that never ends. -/
theorem Safe.fault (h : Safe env w) : w.fault = none ∨ w.fault = some .deadlock := by
  by_cases hi : Interrupted w
  · exact Or.inr (hi.resolve_right fun hf => (h.unharmed.fault _ hf).1 rfl)
  · exact Or.inl (fault_of_anchored h.reached.toSound h.wired
      (fun f hf => (h.unharmed.fault f hf).2) hi)

/-! ### What a careless step does -/

theorem performs_crashed (env : Env) (x : ℕ) (fs : List Effect) (hf : w.fault.isSome = true) :
    fs.foldl (World.perform env x) w = w := by
  refine List.foldlRecOn (motive := fun w' => w' = w) fs _ rfl fun w' hw' f _ => ?_
  rw [hw', World.perform, if_pos hf]

/-- The first call that goes to the destroyed control crashes. -/
theorem performs_dangling (env : Env) {x : ℕ} {fs : List Effect} (running : w.fault = none)
    (hd : (w.controls (w.insts x).control).destroyed = true)
    (hok : ∀ f ∈ fs, f.Ok (w.insts x)) (hr : ∃ f ∈ fs, reaches f = true) :
    (fs.foldl (World.perform env x) w).fault = some .danglingControl := by
  induction fs with
  | nil =>
    obtain ⟨f, hf, -⟩ := hr
    cases hf
  | cons f fs ih =>
    rw [List.foldl_cons]
    by_cases hf : reaches f = true
    · have hcrash : w.perform env x f = w.crash .danglingControl := by
        unfold World.perform
        rw [if_neg (by simp [running])]
        cases f with
        | crash f => cases hf
        | removed => cases hf
        | closing => cases hf
        | opened state => cases hf
        | answered origin => cases hf
        | _ => exact if_pos hd
      rw [hcrash, performs_crashed env x fs rfl]
      rfl
    · rw [perform_idle env (by simpa using hf) (hok f List.mem_cons_self)]
      refine ih (fun g hg => hok g (List.mem_cons_of_mem f hg)) ?_
      obtain ⟨g, hg, hgr⟩ := hr
      rcases List.mem_cons.mp hg with rfl | hg
      · exact absurd hgr hf
      · exact ⟨g, hg, hgr⟩

theorem callback_dangling (hw : Reached env w) (running : w.fault = none) {x : ℕ} {cb : Callback}
    (hx : x < w.nextInst ∧ (w.insts x).released = false)
    (hd : (w.controls (w.insts x).control).destroyed = true)
    (hr : ∃ f ∈ ((w.insts x).callback cb).2, reaches f = true) :
    (w.act env (.callback x cb)).fault = some .danglingControl := by
  have started := hw.settled x hx.1 hx.2
  obtain ⟨h1, h2, h3, h4, h5, h6⟩ := (PeerControl.callback_keeps (w.insts x) cb).same
  have hcontrol : (logged ((w.insts x).callback cb)).control = (w.insts x).control := h1
  simp only [World.act, if_pos hx]
  refine performs_dangling (w := w.setInst x (logged ((w.insts x).callback cb))) env running ?_
    (fun f hf => ?_) hr
  · rw [setInst_insts_self, hcontrol]
    exact hd
  · rw [setInst_insts_self]
    exact (PeerControl.SameIdentity.ok_iff ⟨h1, h2, h3, h4, h5, h6⟩).mpr
      (PeerControl.callback_ok started cb f hf)

/-- A reply about a channel that finds no observer crashes. -/
theorem onMessage_unobserved {m : Message} (running : w.fault = none)
    (hs : speaks env m = true) (ho : (w.controls m.handler).observer = false) :
    (w.onMessage env m).fault = some .nullObserver := by
  have hcrash (source : Option ℕ) (e : Event) :
      (w.observe env m.handler source e).fault = some .nullObserver := by
    rw [observe_unset running ho]
    rfl
  unfold speaks at hs
  cases hid : m.messageId with
  | commandReceived =>
    cases hp : parseCommand env m.data.dataJson with
    | none => simp [hid, hp] at hs
    | some p =>
      obtain ⟨command, peerId, data⟩ := p
      simp only [hid, hp, Bool.or_eq_true, Bool.and_eq_true, decide_eq_true_eq] at hs
      simp only [World.onMessage, hid, onCommandReceived_some hp]
      rcases hs with rfl | ⟨rfl, href⟩
      · rw [if_neg (by decide), if_pos rfl]
        rcases onChannelCreate_cases w m.handler data with ⟨_, _, -, he⟩ | ⟨_, -, he⟩
        · rw [he]
          exact hcrash _ _
        · rw [he]
          exact hcrash _ _
      · rw [if_neg (by decide), if_neg (by decide), if_pos rfl]
        rcases onChannelJoin_cases w m.handler data with ⟨_, _, -, he⟩ | ⟨hn, -⟩
        · rw [he]
          exact hcrash _ _
        · rw [hn] at href
          cases href
  | _ => simp [hid] at hs

theorem careful_of_fault (hw : Reached env w) (running : w.fault = none) {a : Action}
    (hf : (w.step env a).fault = none ∨ (w.step env a).fault = some .deadlock) :
    Careful env w a := by
  have hother {f : Fault} (hne : f ≠ .deadlock) : (w.step env a).fault ≠ some f := by
    intro hfault
    rw [hfault] at hf
    simp [hne] at hf
  cases a with
  | api a =>
    by_contra hn
    simp only [Careful, not_or, Bool.not_eq_true, Option.isSome_eq_false_iff,
      Option.isNone_iff_eq_none] at hn
    exact hother (f := .nullControl) (by simp) (step_null running hn.2 hn.1)
  | process =>
    intro m hm hs
    by_contra ho
    refine hother (f := .nullObserver) (by simp) ?_
    obtain ⟨queue, hq⟩ : ∃ queue, w.queue = m :: queue := List.head?_eq_some_iff.mp hm
    rw [step_running running]
    have hact : w.act env .process = World.onMessage env { w with queue := queue } m := by
      simp only [World.act, World.process, hq]
    have hcrash : (World.onMessage env { w with queue := queue } m).fault = some .nullObserver :=
      onMessage_unobserved running hs (by simpa using ho)
    rw [hact]
    exact hcrash
  | callback x cb =>
    intro hx hr hd f hmem
    by_contra hreach
    refine hother (f := .danglingControl) (by simp) ?_
    rw [step_running running]
    exact callback_dangling hw running ⟨hx, hr⟩ hd ⟨f, hmem, by simpa using hreach⟩
  | command message origin => trivial
  | net a => trivial

/-! ### Memory safety -/

/-- The step of a running program dereferences no null or dangling pointer. -/
def MemorySafe (env : Env) (w : World) (a : Action) : Prop :=
  w.fault = none → (w.step env a).fault = none ∨ (w.step env a).fault = some .deadlock

/-- The step is careful, if anything still runs. -/
def CarefulStep (env : Env) (w : World) (a : Action) : Prop := w.fault = none → Careful env w a

instance (env : Env) (w : World) (a : Action) : Decidable (CarefulStep env w a) :=
  inferInstanceAs (Decidable (w.fault = none → Careful env w a))

end PeerApi.World
