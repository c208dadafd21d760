import PeerApi.Session.Steps

/-! The local close of a session. `Peer::OnClose` calls the handler and drops the
control once, and remembers this in `close_once_`, which only `Peer::OnOpen` resets.
As long as no close of the local id is reported while the flag is still set from an
earlier session, the log of each session has at most one report, followed by one
call of the handler and one return with no control installed. -/

namespace PeerApi

instance (id : String) : (e : Event) → Decidable (e.Closes id)
  | .close peerId _ _ => inferInstanceAs (Decidable (peerId = id))
  | .open _ => inferInstanceAs (Decidable False)
  | .connect _ => inferInstanceAs (Decidable False)
  | .message _ _ => inferInstanceAs (Decidable False)
  | .writable _ => inferInstanceAs (Decidable False)

/-- The entry belongs to a close of the local id. -/
def Obs.Local (id : String) : Obs → Prop
  | .observer _ _ e => e.Closes id
  | .handler _ _ e => e.Closes id
  | .closed _ _ _ => True

/-- The session of an entry. -/
def Obs.session : Obs → Option ℕ
  | .observer c _ _ => some c
  | .handler session _ _ => session
  | .closed session _ _ => session

/-- The handler was called for the local close of session `c`. -/
def Obs.handles (id : String) (c : ℕ) : Obs → Bool
  | .handler session _ e => session = some c ∧ e.Closes id
  | _ => false

instance (id : String) : (o : Obs) → Decidable (o.Local id)
  | .observer _ _ e => inferInstanceAs (Decidable (e.Closes id))
  | .handler _ _ e => inferInstanceAs (Decidable (e.Closes id))
  | .closed _ _ _ => inferInstanceAs (Decidable True)

namespace World

open Base Relation

variable {env : Env} {w w' : World} {c : ℕ}

/-- What was logged about the local close of session `c`. -/
def localCloses (env : Env) (c : ℕ) (w : World) : List Obs :=
  w.obs.filter fun o => o.session = some c ∧ o.Local env.peerId

theorem localCloses_append {os : List Obs} (h : w'.obs = w.obs ++ os) (env : Env) (c : ℕ) :
    w'.localCloses env c =
      w.localCloses env c ++ os.filter fun o => o.session = some c ∧ o.Local env.peerId := by
  simp only [localCloses, h, List.filter_append]

theorem localCloses_same {os : List Obs} (h : w'.obs = w.obs ++ os)
    (hos : ∀ o ∈ os, o.session = some c → ¬ o.Local env.peerId) :
    w'.localCloses env c = w.localCloses env c := by
  rw [localCloses_append h, List.filter_eq_nil_iff.mpr, List.append_nil]
  intro o ho
  simpa using hos o ho

theorem mem_localCloses {o : Obs} : o ∈ w.localCloses env c ↔
    o ∈ w.obs ∧ o.session = some c ∧ o.Local env.peerId := by
  simp [localCloses]

/-- The calls of the handler are counted in the log of the session. -/
theorem countP_localCloses (env : Env) (c : ℕ) (w : World) :
    (w.localCloses env c).countP (Obs.handles env.peerId c) =
      w.obs.countP (Obs.handles env.peerId c) := by
  rw [localCloses, List.countP_filter]
  refine List.countP_congr fun o _ => ?_
  cases o with
  | handler session source e =>
    by_cases h : session = some c <;> simp [Obs.handles, Obs.session, Obs.Local, h]
  | _ => simp [Obs.handles]

/-- The log of a session: nothing, a report that crashed in the handler, or a report
with one call of the handler after which no control is installed. -/
inductive Ledger (env : Env) (c : ℕ) (w : World) : Prop where
  | untouched (h : w.localCloses env c = [])
  | crashed (source : Option ℕ) (e : Event) (he : e.Closes env.peerId) (fault : w.fault ≠ none)
      (h : w.localCloses env c = [.observer c source e, .handler (some c) source e])
  | done (source : Option ℕ) (e : Event) (he : e.Closes env.peerId) (born : c < w.nextControl)
      (unset : (w.controls c).observer = false)
      (h : w.localCloses env c =
        [.observer c source e, .handler (some c) source e, .closed (some c) source none])

/-- A change that adds nothing about the local close of the session. -/
theorem Ledger.same (hw : Ledger env c w) (h : w'.localCloses env c = w.localCloses env c)
    (hg : Grows w w') : Ledger env c w' := by
  cases hw with
  | untouched hn => exact .untouched (h.trans hn)
  | crashed source e he fault hn => exact .crashed source e he (hg.fault fault) (h.trans hn)
  | done source e he born unset hn =>
    exact .done source e he (born.trans_le hg.controls) (hg.observers c born unset) (h.trans hn)

/-! ### What events do -/

theorem Move.closeOnce {src : ℕ → Effect → Prop} (h : Move env src w w') :
    w'.closeOnce = w.closeOnce := by
  cases h <;> rfl

/-- An event that is not the local close neither logs one nor sets `close_once_`. -/
structure Harmless (env : Env) (w w' : World) : Prop where
  obs : Observes (fun o => ¬ o.Local env.peerId) w w'
  closeOnce : w.closeOnce = false → w'.closeOnce = false

theorem Harmless.of_eq (ho : w'.obs = w.obs) (hc : w'.closeOnce = w.closeOnce) :
    Harmless env w w' :=
  ⟨.of_eq ho, fun h => hc.trans h⟩

theorem Harmless.trans {w'' : World} (h : Harmless env w w') (h' : Harmless env w' w'') :
    Harmless env w w'' :=
  ⟨h.obs.trans h'.obs, fun hc => h'.closeOnce (h.closeOnce hc)⟩

theorem Move.harmless {src : ℕ → Effect → Prop} (h : Move env src w w') : Harmless env w w' :=
  .of_eq h.obs h.closeOnce

theorem EventMove.harmless {source : Option ℕ} {e : Event} (h : EventMove env c source e w w')
    (he : ¬ e.Closes env.peerId) : Harmless env w w' := by
  cases h with
  | move h => exact h.harmless
  | observer => exact ⟨⟨_, rfl, fun o ho => List.mem_singleton.mp ho ▸ he⟩, id⟩
  | handler => exact ⟨⟨_, rfl, fun o ho => List.mem_singleton.mp ho ▸ he⟩, id⟩
  | closed session hc => exact absurd hc he
  | closeOnce b hb =>
    refine ⟨.of_eq rfl, fun _ => ?_⟩
    by_contra hne
    exact he (hb (by simpa using hne))
  | dropped d hd hc => exact absurd hc he

theorem Harmless.of_steps {r : World → World → Prop} (hr : ∀ {w w'}, r w w' → Harmless env w w')
    (h : ReflTransGen r w w') : Harmless env w w' := by
  induction h with
  | refl => exact .of_eq rfl rfl
  | tail _ hm ih => exact ih.trans (hr hm)

/-- The world in which the handler of the local close is called. -/
def calling (c : ℕ) (source : Option ℕ) (e : Event) (w : World) : World :=
  { w with
    closeOnce := true
    obs := w.obs ++ [.observer c source e, .handler (some c) source e] }

theorem observe_local_eq (hreg : env.registered "close" = true) (running : w.fault = none)
    (set : (w.controls c).observer = true) (hc : w.control = some c) (once : w.closeOnce = false)
    (source : Option ℕ) {e : Event} (he : e.Closes env.peerId) :
    w.observe env c source e =
      ((env.handler (w.calling c source e).obs).foldl (api env)
        (w.calling c source e)).dropControl.logClosed (some c) source := by
  cases e with
  | close peerId code desc =>
    obtain rfl : peerId = env.peerId := he
    simp only [observe, running, set, notify, peerOnClose, once, callEventHandler, Event.name, hreg,
      hc, Option.isSome_none, Bool.false_eq_true, if_true, if_false, List.append_assoc,
      List.cons_append, List.nil_append, calling]
  | «open» => exact he.elim
  | connect => exact he.elim
  | message => exact he.elim
  | writable => exact he.elim

/-- The local close of the installed control: the handler is called, and unless it
crashes the control is dropped. -/
theorem observe_local (hl : ChannelsSet w) (hreg : env.registered "close" = true)
    (running : w.fault = none) (set : (w.controls c).observer = true) (hc : w.control = some c)
    (once : w.closeOnce = false) (source : Option ℕ) {e : Event} (he : e.Closes env.peerId) :
    ((w.observe env c source e).fault ≠ none ∧ (w.observe env c source e).obs =
      w.obs ++ [.observer c source e, .handler (some c) source e]) ∨
    (((w.observe env c source e).controls c).observer = false ∧ (w.observe env c source e).obs =
      w.obs ++ [.observer c source e, .handler (some c) source e, .closed (some c) source none]) := by
  rw [observe_local_eq hreg running set hc once source he]
  have hsame : SameRegistry w (w.calling c source e) := ⟨rfl, rfl, fun _ => rfl, fun _ => rfl⟩
  have hmoves : Moves env nobody _ ((env.handler (w.calling c source e).obs).foldl (api env) _) :=
    apis_moves (hl.same hsame) _
  generalize (env.handler (w.calling c source e).obs).foldl (api env) (w.calling c source e) = w'
    at hmoves ⊢
  have hobs : w'.obs = (w.calling c source e).obs :=
    calls_invariant (P := fun w' => w'.obs = (w.calling c source e).obs)
      (fun h hw => h.obs.trans hw) hmoves rfl
  have hcontrol : w'.control = some c :=
    calls_invariant (P := fun w' => w'.control = some c) (fun h hw => h.holds hw) hmoves hc
  by_cases hf : w'.fault = none
  · refine Or.inr ?_
    simp only [dropControl, logClosed, modifyControl, hf, hcontrol, hobs, calling, Option.isSome_none,
      Bool.false_eq_true, if_false, Function.update_self, List.append_assoc, List.cons_append,
      List.nil_append, and_self]
  · refine Or.inl ?_
    have hsome : w'.fault.isSome = true := Option.isSome_iff_ne_none.mpr hf
    simp only [dropControl, logClosed, hsome, if_true]
    exact ⟨hf, hobs⟩

/-! ### The ledgers along a step -/

/-- If control `c` may report the local close, the flag is not set by an earlier
session. -/
def Ready (c : ℕ) (P : Prop) (w : World) : Prop :=
  P → (w.controls c).thread = true ∧
    (w.closeOnce = false ∨ (w.controls c).observer = false ∨ w.fault ≠ none)

/-- The ledgers of all sessions, in a step in which only control `c` may report the
local close. -/
structure Kempt (env : Env) (c : ℕ) (P : Prop) (w : World) : Prop extends Sound env w where
  ready : Ready c P w
  ledger : ∀ d, Ledger env d w

theorem Kempt.harmless {P : Prop} (hk : Kempt env c P w) (h : Harmless env w w') (hg : Grows w w')
    (hw' : Sound env w') : Kempt env c P w' := by
  refine ⟨hw', fun hP => ?_, fun d => ?_⟩
  · obtain ⟨thread, hor⟩ := hk.ready hP
    refine ⟨hg.threads c thread, hor.imp h.closeOnce (Or.imp ?_ hg.fault)⟩
    exact hg.observers c (hk.thread_lt thread)
  · obtain ⟨os, hos, hlocal⟩ := h.obs
    exact (hk.ledger d).same (localCloses_same hos fun o ho _ => hlocal o ho) hg

theorem Kempt.localClose {P : Prop} (hreg : env.registered "close" = true) (hk : Kempt env c P w)
    (hP : P) (running : w.fault = none) (set : (w.controls c).observer = true) (source : Option ℕ)
    {e : Event} (he : e.Closes env.peerId) (hg : Grows w (w.observe env c source e))
    (hw' : Sound env (w.observe env c source e)) : Kempt env c P (w.observe env c source e) := by
  obtain ⟨thread, hor⟩ := hk.ready hP
  have once : w.closeOnce = false := by
    rcases hor with h | h | h
    · exact h
    · rw [set] at h
      cases h
    · exact absurd running h
  have hspec := observe_local hk.channelsSet hreg running set (hk.observed c set thread) once source he
  have hfresh : w.localCloses env c = [] := by
    cases hk.ledger c with
    | untouched h => exact h
    | crashed source e he fault h => exact absurd running fault
    | done source e he born unset h =>
      rw [set] at unset
      cases unset
  generalize w.observe env c source e = w' at hspec hg hw' ⊢
  refine ⟨hw', fun _ => ⟨hg.threads c thread, ?_⟩, fun d => ?_⟩
  · rcases hspec with ⟨hf, -⟩ | ⟨ho, -⟩
    · exact Or.inr (Or.inr hf)
    · exact Or.inr (Or.inl ho)
  · by_cases hd : d = c
    · subst hd
      rcases hspec with ⟨hf, hobs⟩ | ⟨ho, hobs⟩
      · refine .crashed source e he hf ?_
        rw [localCloses_append hobs, hfresh]
        simp [Obs.session, Obs.Local, he]
      · refine .done source e he ((hk.thread_lt thread).trans_le hg.controls) ho ?_
        rw [localCloses_append hobs, hfresh]
        simp [Obs.session, Obs.Local, he]
    · have hsame : w'.localCloses env d = w.localCloses env d := by
        rcases hspec with ⟨-, hobs⟩ | ⟨-, hobs⟩
        all_goals
          rw [localCloses_append hobs]
          simp [Obs.session, Ne.symm hd]
      exact (hk.ledger d).same hsame hg

variable {P : Prop} {G : Guard}

theorem Kempt.calls {raises : ℕ → Event → Prop} {src : ℕ → Effect → Prop}
    (hreg : env.registered "close" = true)
    (hraises : ∀ d e, raises d e → e.Closes env.peerId → d = c ∧ P)
    (h : Calls env raises src w w') (hk : Kempt env c P w) : Kempt env c P w' := by
  refine calls_invariant (P := Kempt env c P) (fun {w w'} h hk => ?_) h hk
  have hw' := h.sound hk.toSound
  have hg := h.grows
  cases h with
  | move h => exact hk.harmless h.harmless hg hw'
  | event d source e running set ok admits moves =>
    by_cases he : e.Closes env.peerId
    · obtain ⟨rfl, hP⟩ := hraises d e admits he
      exact hk.localClose hreg hP running set source he hg hw'
    · exact hk.harmless (.of_steps (fun h => h.harmless he) moves) hg hw'

theorem Kempt.tick (hreg : env.registered "close" = true)
    (hraises : ∀ d e, G.raises d e → e.Closes env.peerId → d = c ∧ P) (h : Tick env G w w')
    (hk : Kempt env c P w) : Kempt env c P w' := by
  have hw' := h.sound hk.toSound
  have hg := h.grows
  cases h with
  | call h => exact hk.calls hreg hraises (.single h)
  | callback x cb hx alive started report h =>
    exact (hk.harmless (.of_eq (by rfl) (by rfl)) (setInst_grows x _ w)
      (hk.toSound.callback started cb)).calls hreg hraises h
  | closed d k x code hx calls =>
    exact (hk.harmless (.of_eq (by rfl) (by rfl)) (removePeer_grows env d k x code w)
      (hk.toSound.removePeer hx code)).calls hreg hraises calls
  | dequeued m queue h => exact hk.harmless (.of_eq rfl rfl) hg hw'
  | received d message origin thread ok => exact hk.harmless (.of_eq rfl rfl) hg hw'
  | answered d k x sdp origin h from_ => exact hk.harmless (.of_eq rfl rfl) hg hw'
  | candidate d k x sdpMid sdpMlineIndex candidate h => exact hk.harmless (.of_eq rfl rfl) hg hw'
  | registered d p ids thread new starts => exact hk.harmless (.of_eq rfl rfl) hg hw'
  | rejected d remoteId thread failed => exact hk.harmless (.of_eq rfl rfl) hg hw'

/-! ### Runs -/

/-- When a control with an observer is about to report the local id as closed,
`close_once_` is not set. -/
def Armed (env : Env) (w : World) : Action → Prop
  | .process => ∀ m ∈ w.queue.head?, (w.controls m.handler).observer = true →
      env.peerId ∈ closedIds env w m → w.closeOnce = false
  | _ => True

instance (env : Env) (w : World) : (a : Action) → Decidable (Armed env w a)
  | .process => inferInstanceAs (Decidable (∀ m ∈ w.queue.head?,
      (w.controls m.handler).observer = true → env.peerId ∈ closedIds env w m → w.closeOnce = false))
  | .api _ => inferInstanceAs (Decidable True)
  | .command _ _ => inferInstanceAs (Decidable True)
  | .net _ => inferInstanceAs (Decidable True)
  | .callback _ _ => inferInstanceAs (Decidable True)

/-- The guard of a step in which only control `c` may report the local close. -/
def localGuard (env : Env) (c : ℕ) (P : Prop) : Guard :=
  { Guard.free with raises := fun d e => e.Closes env.peerId → d = c ∧ P }

theorem localGuard_admits {m : Message} (h : c = m.handler) (hP : env.peerId ∈ closedIds env w m → P) :
    Admits env (localGuard env c P) w m :=
  ⟨trivial, fun _ he hid => ⟨h.symm, hP (he _ hid)⟩, fun _ _ _ _ _ _ => trivial,
    fun _ _ _ _ _ => trivial⟩

theorem Armed.ledgers (hreg : env.registered "close" = true) {a : Action} (ha : Armed env w a)
    (hr : Reached env w) (hl : ∀ d, Ledger env d w) (d : ℕ) : Ledger env d (w.step env a) := by
  have admitted : ∃ c P, Admitted env (localGuard env c P) w a ∧ Ready c P w := by
    cases a with
    | process =>
      cases hq : w.queue with
      | nil => exact ⟨0, False, fun m queue h => by simp [hq] at h, fun h => h.elim⟩
      | cons m queue =>
        refine ⟨m.handler, env.peerId ∈ closedIds env w m, fun m' queue' h => ?_, fun hP => ?_⟩
        · obtain ⟨rfl, rfl⟩ : m = m' ∧ queue = queue' := by simpa [hq] using h
          exact localGuard_admits rfl id
        · refine ⟨hr.queued m (by rw [hq]; exact List.mem_cons_self), ?_⟩
          by_cases hobs : (w.controls m.handler).observer = true
          · exact Or.inl (ha m (by rw [hq]; rfl) hobs hP)
          · exact Or.inr (Or.inl (by simpa using hobs))
    | callback x cb =>
      exact ⟨0, False, ⟨trivial, fun e he hid => by cases he _ hid⟩, fun h => h.elim⟩
    | api a => exact ⟨0, False, trivial, fun h => h.elim⟩
    | command message origin => exact ⟨0, False, trivial, fun h => h.elim⟩
    | net a => exact ⟨0, False, trivial, fun h => h.elim⟩
  obtain ⟨c, P, hadm, hready⟩ := admitted
  rcases step_ticks hr hadm with h | ⟨-, ht, h⟩
  · rw [h]
    exact hl d
  · have hk : Kempt env c P (w.act env a) :=
      calls_invariant (fun h hk => hk.tick hreg (fun _ _ h => h) h) ht ⟨hr.toSound, hready, hl⟩
    rw [h]
    cases hk.ledger d with
    | untouched hn => exact .untouched hn
    | crashed source e he fault hn => exact .crashed source e he fault hn
    | done source e he born unset hn =>
      exact .done source e he born
        ((releaseControls_keeps (·.observer) (fun _ => rfl) d).trans unset) hn

theorem ledgers_run (hreg : env.registered "close" = true) {as : List Action}
    (ha : Along (step env) (Armed env) init as) (c : ℕ) : Ledger env c (run (step env) init as) :=
  (ha.invariant (P := fun w => Reached env w ∧ ∀ d, Ledger env d w)
    (fun _ a hw ha => ⟨hw.1.step a, ha.ledgers hreg hw.1 hw.2⟩)
    ⟨reached_init env, fun _ => .untouched rfl⟩).2 c

/-- In every session whose control reports the local close, the handler is called for
it exactly once, and when the report returns no control is installed. -/
theorem local_close_once (env : Env) (hreg : env.registered "close" = true) (as : List Action)
    (ha : Along (step env) (Armed env) init as) (c : ℕ) (source : Option ℕ) (e : Event)
    (he : e.Closes env.peerId) (hreport : .observer c source e ∈ (run (step env) init as).obs) :
    (run (step env) init as).obs.countP (Obs.handles env.peerId c) = 1 ∧
    ((run (step env) init as).fault = none →
      .closed (some c) source none ∈ (run (step env) init as).obs) ∧
    ∀ source control, .closed (some c) source control ∈ (run (step env) init as).obs →
      control = none := by
  have hmem := mem_localCloses.mpr ⟨hreport, rfl, he⟩
  have closed {source control : Option ℕ}
      (h : .closed (some c) source control ∈ (run (step env) init as).obs) :
      .closed (some c) source control ∈ (run (step env) init as).localCloses env c :=
    mem_localCloses.mpr ⟨h, rfl, trivial⟩
  rw [← countP_localCloses]
  cases ledgers_run hreg ha c with
  | untouched h =>
    rw [h] at hmem
    cases hmem
  | crashed source' e' he' fault h =>
    refine ⟨?_, fun hf => absurd hf fault, fun _ _ hc => ?_⟩
    · rw [h]
      simp [Obs.handles, he']
    · simpa [h] using closed hc
  | done source' e' he' born unset h =>
    rw [h] at hmem
    have hsource : source = source' := by
      simp only [List.mem_cons, Obs.observer.injEq, reduceCtorEq, List.not_mem_nil, or_false] at hmem
      exact hmem.2.1
    subst hsource
    refine ⟨?_, fun _ => ?_, fun _ _ hc => ?_⟩
    · rw [h]
      simp [Obs.handles, he']
    · have hclosed : .closed (some c) source none ∈ (run (step env) init as).localCloses env c := by
        simp [h]
      exact (mem_localCloses.mp hclosed).1
    · have := closed hc
      rw [h] at this
      simp only [List.mem_cons, Obs.closed.injEq, reduceCtorEq, List.not_mem_nil, false_or,
        or_false] at this
      exact this.2.2

/-- Two sessions that are opened at the server and closed by the user. -/
def twoSessions : List Action :=
  [.api .open, .net (.connectInternal true), .net (.onOpen 0),
    .command (channelCreateMessage "a" true) none, .process, .api (.close "a"), .process,
    .api .open, .net (.connectInternal true), .net (.onOpen 1),
    .command (channelCreateMessage "a" true) none, .process, .api (.close "a"), .process]

theorem local_close_once_twoSessions :
    (run (step (Env.polite "a" (by decide))) init twoSessions).obs.countP (Obs.handles "a" 1) = 1 :=
  (local_close_once (Env.polite "a" (by decide)) rfl twoSessions (by decide +kernel) 1 none
    (.close "a" .normal "") rfl (by decide +kernel)).1

/-- The first session is closed by the user; the second loses its signal connection
before the server has opened its channel. -/
def lostBeforeOpen : List Action :=
  [.api .open, .net (.connectInternal true), .net (.onOpen 0),
    .command (channelCreateMessage "a" true) none, .process, .api (.close "a"), .process,
    .api .open, .net (.connectInternal true), .net (.onOpen 1),
    .net (.onClose 1 (some .abnormalClose)), .process]

/-- The flag is still set: the handler is not called, and the control stays installed. -/
theorem lostBeforeOpen_unhandled :
    .observer 1 none (.close "a" .signalError "") ∈
      (run (step (Env.polite "a" (by decide))) init lostBeforeOpen).obs ∧
    (run (step (Env.polite "a" (by decide))) init lostBeforeOpen).obs.countP (Obs.handles "a" 1) = 0 ∧
    (run (step (Env.polite "a" (by decide))) init lostBeforeOpen).fault = none ∧
    (run (step (Env.polite "a" (by decide))) init lostBeforeOpen).control = some 1 := by
  decide +kernel

end World

end PeerApi
