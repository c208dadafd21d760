import PeerApi.Base.Transducer
import PeerApi.Session.LocalClose

/-! What the handlers of the user get to see. A session calls its observer, and the
peer passes the calls on: all of them for which a handler is registered, except that
of the local closes since the last `open` only the first one is passed on. Whatever
the handlers do, events are passed on in the order in which they were raised, each
once, and in the session that raised them. -/

namespace PeerApi

open Base

/-- An event with the session and the instance it comes from. -/
structure Report where
  session : Option ℕ
  source : Option ℕ
  event : Event
  deriving DecidableEq

/-- A call on the observer. -/
def Obs.raised? : Obs → Option Report
  | .observer c source e => some ⟨some c, source, e⟩
  | _ => none

/-- A call of a registered handler. -/
def Obs.handled? : Obs → Option Report
  | .handler session source e => some ⟨session, source, e⟩
  | _ => none

/-- What the peer does with the calls on its observer; the state is `close_once_`. -/
def relay (env : Env) : Transducer Bool Report Report where
  step once r :=
    let passed := if env.registered r.event.name then [r] else []
    match r.event with
    | .open _ => (false, passed)
    | .close peerId _ _ =>
      if peerId = env.peerId then if once then (true, []) else (true, passed)
      else (once, passed)
    | _ => (once, passed)

namespace World

open Relation

variable {env : Env} {w w' : World}

/-- The peer has passed on what the relay would. -/
def Relayed (env : Env) (w : World) : Prop :=
  (relay env).Tracks false w.closeOnce (w.obs.filterMap Obs.raised?)
    (w.obs.filterMap Obs.handled?)

theorem Relayed.of_same (h : Relayed env w) (hobs : w'.obs = w.obs)
    (honce : w'.closeOnce = w.closeOnce) : Relayed env w' := by
  unfold Relayed
  rw [hobs, honce]
  exact h

/-! ### The flag -/

theorem Moves.closeOnce {src : ℕ → Effect → Prop} (h : Moves env src w w') :
    w'.closeOnce = w.closeOnce :=
  calls_invariant (P := fun w₁ => w₁.closeOnce = w.closeOnce) (fun h hw => h.closeOnce.trans hw) h rfl

theorem dropControl_closeOnce (w : World) : w.dropControl.closeOnce = w.closeOnce := by
  unfold dropControl
  split_ifs
  · rfl
  · cases w.control <;> rfl

theorem logClosed_closeOnce (session source : Option ℕ) (w : World) :
    (w.logClosed session source).closeOnce = w.closeOnce := by
  unfold logClosed
  split_ifs <;> rfl

theorem logClosed_reports (session source : Option ℕ) (w : World) :
    (w.logClosed session source).obs.filterMap Obs.raised? = w.obs.filterMap Obs.raised? ∧
      (w.logClosed session source).obs.filterMap Obs.handled? = w.obs.filterMap Obs.handled? := by
  unfold logClosed
  split_ifs
  · exact ⟨rfl, rfl⟩
  · simp [Obs.raised?, Obs.handled?]

/-! ### One event -/

/-- Calling the handler logs the event, when a handler is registered, and nothing else. -/
theorem callEventHandler_reports (env : Env) (hl : ChannelsSet w) (source : Option ℕ) (e : Event) :
    (w.callEventHandler env source e).closeOnce = w.closeOnce ∧
      (w.callEventHandler env source e).obs =
        w.obs ++ if env.registered e.name then [.handler w.control source e] else [] := by
  unfold callEventHandler
  split_ifs with hreg
  · have hs : SameRegistry w { w with obs := w.obs ++ [.handler w.control source e] } :=
      ⟨rfl, rfl, fun _ => rfl, fun _ => rfl⟩
    have h : Moves env nobody _ _ := apis_moves (hl.same hs)
      (env.handler (w.obs ++ [.handler w.control source e]))
    exact ⟨h.closeOnce, h.obs⟩
  · simp

/-- Passing an event on is one step of the relay. -/
theorem notify_relay (env : Env) (hl : ChannelsSet w) (source : Option ℕ) (e : Event) :
    (w.notify env source e).closeOnce = ((relay env).step w.closeOnce ⟨w.control, source, e⟩).1 ∧
      (w.notify env source e).obs.filterMap Obs.raised? = w.obs.filterMap Obs.raised? ∧
      (w.notify env source e).obs.filterMap Obs.handled? = w.obs.filterMap Obs.handled? ++
        ((relay env).step w.closeOnce ⟨w.control, source, e⟩).2 := by
  have hcall : ∀ (once : Bool),
      (callEventHandler env source e { w with closeOnce := once }).closeOnce = once ∧
      (callEventHandler env source e { w with closeOnce := once }).obs.filterMap Obs.raised? =
        w.obs.filterMap Obs.raised? ∧
      (callEventHandler env source e { w with closeOnce := once }).obs.filterMap Obs.handled? =
        w.obs.filterMap Obs.handled? ++
          if env.registered e.name then [⟨w.control, source, e⟩] else [] := by
    intro once
    have hs : SameRegistry w { w with closeOnce := once } := ⟨rfl, rfl, fun _ => rfl, fun _ => rfl⟩
    obtain ⟨h1, h2⟩ := callEventHandler_reports env (hl.same hs) source e
    refine ⟨h1, ?_, ?_⟩ <;> rw [h2] <;> split_ifs <;> simp [Obs.raised?, Obs.handled?]
  cases e with
  | «open» peerId => exact hcall false
  | close peerId code desc =>
    simp only [notify, peerOnClose, relay]
    split_ifs with hid honce hreg
    · exact ⟨honce, rfl, by simp⟩
    · have h := hcall true
      obtain ⟨h1, h2⟩ := logClosed_reports w.control source
        (callEventHandler env source (.close peerId code desc)
          { w with closeOnce := true }).dropControl
      rw [if_pos hreg] at h
      rw [logClosed_closeOnce, h1, h2, dropControl_closeOnce, dropControl_obs]
      exact h
    · have h := hcall true
      obtain ⟨h1, h2⟩ := logClosed_reports w.control source
        (callEventHandler env source (.close peerId code desc)
          { w with closeOnce := true }).dropControl
      rw [if_neg hreg] at h
      rw [logClosed_closeOnce, h1, h2, dropControl_closeOnce, dropControl_obs]
      exact h
    · have h := hcall w.closeOnce
      rwa [if_pos ‹_›] at h
    · have h := hcall w.closeOnce
      rwa [if_neg ‹_›] at h
  | connect peerId => exact hcall w.closeOnce
  | message peerId data => exact hcall w.closeOnce
  | writable peerId => exact hcall w.closeOnce

/-- An event of the installed session is passed on. -/
theorem Relayed.observe (h : Relayed env w) (hl : ChannelsSet w) {c : ℕ} (hc : w.control = some c)
    (running : w.fault = none) (set : (w.controls c).observer = true) (source : Option ℕ)
    (e : Event) : Relayed env (w.observe env c source e) := by
  unfold World.observe
  rw [if_neg (by simp [running]), if_pos set]
  have hs : SameRegistry w { w with obs := w.obs ++ [.observer c source e] } :=
    ⟨rfl, rfl, fun _ => rfl, fun _ => rfl⟩
  obtain ⟨h1, h2, h3⟩ := notify_relay env (hl.same hs) source e
  have hraised : [Obs.observer c source e].filterMap Obs.raised? = [⟨some c, source, e⟩] := rfl
  have hhandled : [Obs.observer c source e].filterMap Obs.handled? = [] := rfl
  unfold Relayed
  rw [h1, h2, h3]
  simp only [List.filterMap_append, hc, hraised, hhandled, List.append_nil]
  exact h.next ⟨some c, source, e⟩

/-! ### Runs -/

/-- The guard of a step in which only controls with a thread raise events. -/
def threaded (w : World) : Guard :=
  { Guard.free with raises := fun c _ => (w.controls c).thread = true }

/-- Messages are posted to controls with a thread, and only those have instances. -/
theorem act_threaded (hw : Reached env w) (a : Action) :
    Ticks env (threaded w) w (w.act env a) := by
  cases a with
  | process =>
    refine act_ticks hw fun m queue hq => ?_
    have hm := hw.queued m (by rw [hq]; exact List.mem_cons_self)
    exact ⟨trivial, fun _ _ => hm, fun _ _ _ _ _ _ => trivial, fun _ _ _ _ _ => trivial⟩
  | callback x cb =>
    by_cases hx : x < w.nextInst ∧ (w.insts x).released = false
    · exact act_ticks hw ⟨trivial, fun _ _ => hw.owners x hx.1⟩
    · simp only [act, if_neg hx]
      exact .refl
  | api a => exact act_ticks (a := .api a) hw trivial
  | command message origin => exact act_ticks (a := .command message origin) hw trivial
  | net a => exact act_ticks (a := .net a) hw trivial

theorem Relayed.call {w₀ : World} (hg : Grows w₀ w) (hw : Sound env w) {src : ℕ → Effect → Prop}
    (hc : Call env (threaded w₀).raises src w w') (h : Relayed env w) : Relayed env w' := by
  cases hc with
  | move hm => exact h.of_same hm.obs hm.closeOnce
  | event c source e running set ok admits moves =>
    exact h.observe hw.channelsSet (hw.observed c set (hg.threads c admits)) running set source e

theorem Relayed.calls {w₀ : World} (hg : Grows w₀ w) (hw : Sound env w) {src : ℕ → Effect → Prop}
    (hc : Calls env (threaded w₀).raises src w w') (h : Relayed env w) : Relayed env w' :=
  (calls_invariant (P := fun w => (Grows w₀ w ∧ Sound env w) ∧ Relayed env w)
    (fun hc hw => ⟨⟨hw.1.1.trans hc.grows, hc.sound hw.1.2⟩, hw.2.call hw.1.1 hw.1.2 hc⟩) hc
    ⟨⟨hg, hw⟩, h⟩).2

theorem Relayed.tick {w₀ : World} (hg : Grows w₀ w) (hw : Sound env w)
    (ht : Tick env (threaded w₀) w w') (h : Relayed env w) : Relayed env w' := by
  cases ht with
  | call hc => exact h.call hg hw hc
  | callback x cb hx alive started report hc =>
    exact Relayed.calls (hg.trans (setInst_grows _ _ _)) (hw.callback started cb) hc
      (h.of_same rfl rfl)
  | closed c k x code hx hc =>
    exact Relayed.calls (hg.trans (removePeer_grows _ _ _ _ _ _)) (hw.removePeer hx code) hc
      (h.of_same rfl rfl)
  | _ => exact h.of_same rfl rfl

theorem relayed_run (env : Env) (as : List Action) :
    Relayed env (run (World.step env) init as) := by
  have hstep : ∀ w a, Reached env w ∧ Relayed env w →
      Reached env (w.step env a) ∧ Relayed env (w.step env a) := by
    rintro w a ⟨hw, h⟩
    refine ⟨hw.step a, ?_⟩
    unfold World.step
    split_ifs
    · exact h
    · have hall := calls_invariant (P := fun w₁ => (Grows w w₁ ∧ Sound env w₁) ∧ Relayed env w₁)
        (fun ht hw => ⟨⟨hw.1.1.trans ht.grows, ht.sound hw.1.2⟩, hw.2.tick hw.1.1 hw.1.2 ht⟩)
        (act_threaded hw a) ⟨⟨Grows.refl w, hw.toSound⟩, h⟩
      exact hall.2.of_same rfl rfl
  exact (run_invariant hstep ⟨reached_init env, Transducer.Tracks.start false⟩ as).2

/-- The handlers of the user are called for what the relay passes on of the events the
sessions raised, in the same order and each once, in the session that raised it. -/
theorem handled_eq_relay (env : Env) (as : List Action) :
    (run (World.step env) init as).obs.filterMap Obs.handled? =
      (relay env).output false ((run (World.step env) init as).obs.filterMap Obs.raised?) :=
  (relayed_run env as).written

end World

end PeerApi
