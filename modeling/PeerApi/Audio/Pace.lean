import PeerApi.Audio.Frames
import Mathlib.Tactic.Ring

/-! The pace of the frames. `next_frame_time_` grows by 10 ms a frame from the time of the
first, and the message of a frame is due then, or at once when that time has passed. So
no frame is early, and a frame that is late does not delay those after it: as soon as
no message is due, the frames are as many as the time since the first allows. -/

namespace PeerApi.Audio.CaptureModule

open Base

variable {m : CaptureModule}

/-- Frame `k` after the first one, at `t₀`, is processed at `t₀ + 10 * k` or later. -/
structure Paced (m : CaptureModule) : Prop where
  clear : m.started = false → m.frames = []
  next : m.started = true → ∃ t₀, m.frames.head? = some t₀ ∧
    m.nextFrameTime = t₀ + timePerFrameMs * m.frames.length
  early : ∀ (t₀ : ℤ) (k : ℕ) (t : ℤ), m.frames.head? = some t₀ → m.frames[k]? = some t →
    t₀ + timePerFrameMs * k ≤ t
  past : ∀ t ∈ m.frames, t ≤ m.now
  due : ∀ queue, m.processThread = some queue → ∀ msg ∈ queue, msg.isRun = true →
    m.nextFrameTime ≤ msg.due ∧ (msg.due ≤ m.now ∨ msg.due = m.nextFrameTime)

theorem paced_create (now : ℤ) : Paced (create now) where
  clear _ := rfl
  next h := by cases h
  early t₀ k t h _ := by cases h
  past t h := by cases h
  due queue h := by cases h

theorem head?_concat (ts : List ℤ) (t : ℤ) : (ts ++ [t]).head? = some (ts.head?.getD t) := by
  cases ts <;> rfl

/-- With one more frame at the end, a frame is an old one, or it is the new one. -/
theorem concat_cases {ts : List ℤ} {t t₀ t' : ℤ} {k : ℕ} (h₀ : (ts ++ [t]).head? = some t₀)
    (h : (ts ++ [t])[k]? = some t') :
    (ts.head? = some t₀ ∧ ts[k]? = some t') ∨
      (k = ts.length ∧ t' = t ∧ t₀ = ts.head?.getD t) := by
  rw [head?_concat] at h₀
  rcases lt_or_ge k ts.length with hk | hk
  · rw [List.getElem?_append_left hk] at h
    refine Or.inl ⟨?_, h⟩
    cases ts with
    | nil => cases hk
    | cons s ss => exact h₀
  · rw [List.getElem?_append_right hk] at h
    have hk' : k = ts.length := by
      have hlt := (List.getElem?_eq_some_iff.mp h).1
      simp only [List.length_singleton] at hlt
      omega
    subst hk'
    exact Or.inr ⟨rfl, by simpa using h.symm, (Option.some.inj h₀).symm⟩

/-- When a frame is processed, it is due. -/
theorem Paced.frame_due (h : Paced m) {i : ℕ} {queue : List Message} {msg : Message}
    (hq : m.processThread = some queue) (hi : queue[i]? = some msg) (hdue : msg.due ≤ m.now)
    (hstart : msg.messageId = .startProcess → m.started = false) : m.frameDue ≤ m.now := by
  unfold frameDue
  cases hs : m.started with
  | false => exact le_rfl
  | true =>
    rw [if_pos rfl]
    have hrun : msg.isRun = true := by
      cases hid : msg.messageId with
      | startProcess =>
        rw [hstart hid] at hs
        cases hs
      | runProcess => simp [Message.isRun, hid]
    exact (h.due queue hq msg (List.mem_of_getElem? hi) hrun).1.trans hdue

/-- The first frame is processed when it is due, the others are 10 ms apart. -/
theorem Paced.frameDue_eq (h : Paced m) :
    m.frameDue = m.frames.head?.getD m.now + timePerFrameMs * m.frames.length := by
  unfold frameDue
  cases hs : m.started with
  | false => simp [h.clear hs]
  | true =>
    obtain ⟨t₀, ht₀, hnext⟩ := h.next hs
    rw [if_pos rfl, hnext, ht₀]
    rfl

theorem Paced.step (h : Paced m) (hc : Chained m) (a : Action) : Paced (m.step a) := by
  apply step_cases a h
  · intro c _ _
    obtain ⟨hs, hn, ht, hnow, hf⟩ := call_course c m
    refine ⟨?_, ?_, ?_, ?_, ?_⟩
    · rw [hs, hf]
      exact h.clear
    · rw [hs, hf, hn]
      exact h.next
    · rw [hf]
      exact h.early
    · rw [hf, hnow]
      exact h.past
    · rw [ht, hn, hnow]
      exact h.due
  · intro _ _
    refine ⟨h.clear, h.next, h.early, h.past, fun queue hq msg hmsg hrun => ?_⟩
    rw [← Option.some.inj hq] at hmsg
    rcases List.mem_append.mp hmsg with hmsg | hmsg
    · cases ht : m.processThread with
      | none => simp [ht] at hmsg
      | some rest => exact h.due rest ht msg (by simpa [ht] using hmsg) hrun
    · rw [List.mem_singleton.mp hmsg] at hrun
      cases hrun
  · intro _ _
    exact ⟨fun _ => rfl, fun hs => (by cases hs), fun t₀ k t ht => (by cases ht),
      fun t ht => (by cases ht), fun queue hq => (by cases hq)⟩
  · intro elapsed _
    refine ⟨h.clear, h.next, h.early, fun t ht => ?_, fun queue hq msg hmsg hrun => ?_⟩
    · have hpast := h.past t ht
      dsimp only
      omega
    · obtain ⟨h1, h2⟩ := h.due queue hq msg hmsg hrun
      dsimp only
      omega
  · intro i io queue msg _ hq _ _ _
    refine ⟨h.clear, h.next, h.early, h.past, fun rest hrest msg' hmsg' hrun => ?_⟩
    rw [← Option.some.inj hrest] at hmsg'
    exact h.due queue hq msg' (List.mem_of_mem_eraseIdx hmsg') hrun
  · intro i io queue msg m' _ hq hi hdue hstart hm'
    have hframe := h.frame_due hq hi hdue hstart
    have hdue_eq := h.frameDue_eq
    have hnow : m.now ≤ m'.now := by
      rw [hm'.now]
      dsimp only
      omega
    have hnext : m'.nextFrameTime = m.frameDue + timePerFrameMs := hm'.nextFrameTime
    have hframes : m'.frames = m.frames ++ [m.now] := hm'.frames
    refine ⟨fun hs => ?_, fun _ => ?_, fun t₀ k t ht₀ ht => ?_, fun t ht => ?_,
      fun rest hrest msg' hmsg' hrun => ?_⟩
    · rw [hm'.started] at hs
      cases hs
    · refine ⟨_, by rw [hframes, head?_concat], ?_⟩
      rw [hnext, hdue_eq, hframes, List.length_append, List.length_singleton]
      push_cast
      ring
    · rw [hframes] at ht₀ ht
      rcases concat_cases ht₀ ht with ⟨ht₀, ht⟩ | ⟨rfl, rfl, rfl⟩
      · exact h.early t₀ k t ht₀ ht
      · rw [← hdue_eq]
        exact hframe
    · rw [hframes] at ht
      rcases List.mem_append.mp ht with ht | ht
      · exact (h.past t ht).trans hnow
      · rw [List.mem_singleton.mp ht]
        exact hnow
    · have hthread := hm'.processThread
      rw [Option.map_some] at hthread
      rw [hthread] at hrest
      rw [← Option.some.inj hrest] at hmsg'
      rcases List.mem_append.mp hmsg' with hmsg' | hmsg'
      · exact absurd hrun (List.countP_eq_zero.mp (hc.alone hq hi hstart) msg' hmsg')
      · rw [List.mem_singleton.mp hmsg']
        dsimp only
        rcases le_total m'.nextFrameTime m'.now with hle | hle
        · rw [max_eq_right hle]
          exact ⟨hle, Or.inl le_rfl⟩
        · rw [max_eq_left hle]
          exact ⟨le_rfl, Or.inr rfl⟩

theorem paced_run (now : ℤ) (as : List Action) : Paced (run step (create now) as) := by
  have hstep : ∀ m a, Chained m ∧ Paced m → Chained (m.step a) ∧ Paced (m.step a) :=
    fun m a h => ⟨h.1.step a, h.2.step h.1 a⟩
  exact (run_invariant hstep ⟨chained_create now, paced_create now⟩ as).2

/-- Playing starts; the thread then stalls for 25 ms and processes the two frames that
are due. -/
def stalled : List Action :=
  [.call .initPlayout, .call .startPlayout, .updateProcessing, .dispatch 0 (quiet 1), .tick 24,
    .dispatch 0 (quiet 0), .dispatch 0 (quiet 0)]

/-- The thread dispatches the message of a frame at most `late` after it is due, and a
frame takes at most `busy`. -/
def Prompt (late busy : ℕ) (m : CaptureModule) : Action → Prop
  | .tick elapsed => ∀ msg ∈ m.processThread.getD [], msg.isRun = true →
      m.now + elapsed ≤ msg.due + late
  | .dispatch _ io => io.elapsed ≤ busy
  | _ => True

instance (late busy : ℕ) (m : CaptureModule) : (a : Action) → Decidable (Prompt late busy m a)
  | .tick elapsed => inferInstanceAs (Decidable (∀ msg ∈ m.processThread.getD [],
      msg.isRun = true → m.now + elapsed ≤ msg.due + late))
  | .dispatch _ io => inferInstanceAs (Decidable (io.elapsed ≤ busy))
  | .call _ => inferInstanceAs (Decidable True)
  | .updateProcessing => inferInstanceAs (Decidable True)

structure OnTime (late : ℕ) (m : CaptureModule) : Prop where
  due : ∀ queue, m.processThread = some queue → ∀ msg ∈ queue, msg.isRun = true →
    msg.due = m.nextFrameTime ∧ m.now ≤ msg.due + late
  frames : ∀ (t₀ : ℤ) (k : ℕ) (t : ℤ), m.frames.head? = some t₀ → m.frames[k]? = some t →
    t ≤ t₀ + timePerFrameMs * k + late

variable {late busy : ℕ}

theorem OnTime.frame_late (h : OnTime late m) {i : ℕ} {queue : List Message} {msg : Message}
    (hq : m.processThread = some queue) (hi : queue[i]? = some msg)
    (hstart : msg.messageId = .startProcess → m.started = false) : m.now ≤ m.frameDue + late := by
  unfold frameDue
  cases hs : m.started with
  | false => simp
  | true =>
    rw [if_pos rfl]
    have hrun : msg.isRun = true := by
      cases hid : msg.messageId with
      | startProcess =>
        rw [hstart hid] at hs
        cases hs
      | runProcess => simp [Message.isRun, hid]
    obtain ⟨h1, h2⟩ := h.due queue hq msg (List.mem_of_getElem? hi) hrun
    rwa [← h1]

/-- A frame that is processed in time is over before the next is due. -/
theorem OnTime.step (h : OnTime late m) (hc : Chained m) (hp : Paced m) {a : Action}
    (ha : Prompt late busy m a) (hle : (late + busy : ℤ) ≤ timePerFrameMs) :
    OnTime late (m.step a) := by
  apply step_cases a h
  · intro c _ _
    obtain ⟨hs, hn, ht, hnow, hf⟩ := call_course c m
    refine ⟨?_, ?_⟩
    · rw [ht, hn, hnow]
      exact h.due
    · rw [hf]
      exact h.frames
  · intro _ _
    refine ⟨fun queue hq msg hmsg hrun => ?_, h.frames⟩
    rw [← Option.some.inj hq] at hmsg
    rcases List.mem_append.mp hmsg with hmsg | hmsg
    · cases ht : m.processThread with
      | none => simp [ht] at hmsg
      | some rest => exact h.due rest ht msg (by simpa [ht] using hmsg) hrun
    · rw [List.mem_singleton.mp hmsg] at hrun
      cases hrun
  · intro _ _
    exact ⟨fun queue hq => (by cases hq), fun t₀ k t ht => (by cases ht)⟩
  · rintro elapsed rfl
    refine ⟨fun queue hq msg hmsg hrun => ⟨(h.due queue hq msg hmsg hrun).1, ?_⟩, h.frames⟩
    exact ha msg (by rw [hq]; exact hmsg) hrun
  · intro i io queue msg _ hq _ _ _
    refine ⟨fun rest hrest msg' hmsg' hrun => ?_, h.frames⟩
    rw [← Option.some.inj hrest] at hmsg'
    exact h.due queue hq msg' (List.mem_of_mem_eraseIdx hmsg') hrun
  · rintro i io queue msg m' rfl hq hi hdue hstart hm'
    have hlate := h.frame_late hq hi hstart
    have hdue_eq := hp.frameDue_eq
    have hbusy : (io.elapsed : ℤ) ≤ busy := Int.ofNat_le.mpr ha
    have hnow : m'.now = m.now + io.elapsed := hm'.now
    have hnext : m'.nextFrameTime = m.frameDue + timePerFrameMs := hm'.nextFrameTime
    have hframes : m'.frames = m.frames ++ [m.now] := hm'.frames
    refine ⟨fun rest hrest msg' hmsg' hrun => ?_, fun t₀ k t ht₀ ht => ?_⟩
    · have hthread := hm'.processThread
      rw [Option.map_some] at hthread
      rw [hthread] at hrest
      rw [← Option.some.inj hrest] at hmsg'
      rcases List.mem_append.mp hmsg' with hmsg' | hmsg'
      · exact absurd hrun (List.countP_eq_zero.mp (hc.alone hq hi hstart) msg' hmsg')
      · have hover : m'.now ≤ m'.nextFrameTime := by omega
        rw [List.mem_singleton.mp hmsg']
        dsimp only
        rw [max_eq_left hover]
        exact ⟨rfl, by omega⟩
    · rw [hframes] at ht₀ ht
      rcases concat_cases ht₀ ht with ⟨ht₀, ht⟩ | ⟨rfl, rfl, rfl⟩
      · exact h.frames t₀ k t ht₀ ht
      · rw [← hdue_eq]
        exact hlate

/-- Frames that take 4 ms, each processed 2 ms late. -/
def steady : List Action :=
  [.call .initPlayout, .call .startPlayout, .updateProcessing, .dispatch 0 (quiet 4), .tick 8,
    .dispatch 0 (quiet 4), .tick 6, .dispatch 0 (quiet 4)]

end PeerApi.Audio.CaptureModule
