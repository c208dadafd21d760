import PeerApi.Audio.CaptureModule
import PeerApi.Base.Run
import Mathlib.Data.List.Count
import Mathlib.Tactic.Linarith

/-! The frames of the capture module. Each frame posts the message of the next one, and
nothing else does, so between calls there is one such message exactly while something is
played or recorded; starting twice does not double the frames, and stopping one direction
does not stop the other. The message is due 10 ms after the time the last frame was due,
not after the time it was processed: frames are never early, and however late some of them
are, once the thread has caught up their number is what the clock says. -/

namespace PeerApi.Audio

open Base

def Message.isRun (msg : Message) : Bool := msg.messageId = .runProcess

namespace CaptureModule

variable {m : CaptureModule}

/-! ### One frame -/

/-- What the frames depend on is the same. -/
structure SameCourse (m m' : CaptureModule) : Prop where
  recording : m'.recording = m.recording
  playing : m'.playing = m.playing
  started : m'.started = m.started
  nextFrameTime : m'.nextFrameTime = m.nextFrameTime
  processThread : m'.processThread = m.processThread
  now : m'.now = m.now
  update : m'.update = m.update
  frames : m'.frames = m.frames

theorem SameCourse.refl (m : CaptureModule) : SameCourse m m :=
  ⟨rfl, rfl, rfl, rfl, rfl, rfl, rfl, rfl⟩

theorem SameCourse.trans {m' m'' : CaptureModule} (h : SameCourse m m') (h' : SameCourse m' m'') :
    SameCourse m m'' where
  recording := h'.recording.trans h.recording
  playing := h'.playing.trans h.playing
  started := h'.started.trans h.started
  nextFrameTime := h'.nextFrameTime.trans h.nextFrameTime
  processThread := h'.processThread.trans h.processThread
  now := h'.now.trans h.now
  update := h'.update.trans h.update
  frames := h'.frames.trans h.frames

theorem receiveFrameP_course (io : FrameIo) (m : CaptureModule) :
    SameCourse m (m.receiveFrameP io) := by
  unfold receiveFrameP
  split_ifs
  · dsimp only
    split_ifs <;> exact ⟨rfl, rfl, rfl, rfl, rfl, rfl, rfl, rfl⟩
  · exact ⟨rfl, rfl, rfl, rfl, rfl, rfl, rfl, rfl⟩
  · exact .refl m

theorem sendFrameP_course (io : FrameIo) (m : CaptureModule) :
    SameCourse m (m.sendFrameP io) := by
  unfold sendFrameP
  split_ifs
  · exact ⟨rfl, rfl, rfl, rfl, rfl, rfl, rfl, rfl⟩
  · exact .refl m

theorem exchangeFrame_course (io : FrameIo) (m : CaptureModule) :
    SameCourse m (m.exchangeFrame io) := by
  have hpull : SameCourse m (if m.playing then m.receiveFrameP io else m) := by
    split_ifs
    · exact receiveFrameP_course io m
    · exact .refl m
  unfold exchangeFrame
  dsimp only
  split_ifs at hpull ⊢
  all_goals first | exact hpull.trans (sendFrameP_course io _) | exact hpull

/-- The time at which the frame that is processed now was due. -/
def frameDue (m : CaptureModule) : ℤ := if m.started then m.nextFrameTime else m.now

/-- A frame posts the message of the next one. -/
structure Framed (m m' : CaptureModule) (elapsed : ℕ) : Prop where
  recording : m'.recording = m.recording
  playing : m'.playing = m.playing
  update : m'.update = m.update
  started : m'.started = true
  now : m'.now = m.now + elapsed
  frames : m'.frames = m.frames ++ [m.now]
  nextFrameTime : m'.nextFrameTime = m.frameDue + timePerFrameMs
  processThread : m'.processThread =
    m.processThread.map (· ++ [⟨max m'.nextFrameTime m'.now, .runProcess⟩])

theorem processFrameP_framed (io : FrameIo) (m : CaptureModule) :
    Framed m (m.processFrameP io) io.elapsed := by
  have hbegin : m.beginFrame = { m with nextFrameTime := m.frameDue, started := true } := by
    unfold beginFrame frameDue
    cases hs : m.started
    · rfl
    · cases m
      simp_all
  have h := exchangeFrame_course io m.beginFrame
  rw [hbegin] at h
  have hdelay (a b : ℤ) : b + (if b < a then a - b else 0) = max a b := by
    split_ifs with hab
    · rw [max_eq_left hab.le]
      omega
    · rw [max_eq_right (not_lt.mp hab)]
      omega
  refine ⟨?_, ?_, ?_, ?_, ?_, ?_, ?_, ?_⟩
  all_goals simp only [processFrameP, scheduleFrame, postDelayed, passFrame, hbegin]
  · exact h.recording
  · exact h.playing
  · exact h.update
  · exact h.started
  · rw [h.now]
  · rw [h.frames, h.now]
  · rw [h.nextFrameTime]
  · rw [hdelay, h.processThread]

/-- The effects of a call of the interface on what the frames depend on. -/
theorem call_course (c : Call) (m : CaptureModule) :
    (m.call c).started = m.started ∧ (m.call c).nextFrameTime = m.nextFrameTime ∧
    (m.call c).processThread = m.processThread ∧ (m.call c).now = m.now ∧
    (m.call c).frames = m.frames := by
  cases c with
  | startPlayout =>
    simp only [call, startPlayout]
    split_ifs <;> exact ⟨rfl, rfl, rfl, rfl, rfl⟩
  | startRecording =>
    simp only [call, startRecording]
    split_ifs <;> exact ⟨rfl, rfl, rfl, rfl, rfl⟩
  | _ => exact ⟨rfl, rfl, rfl, rfl, rfl⟩

/-- The call is about to update the processing as its flags say, or leaves both alone. -/
theorem call_flags (c : Call) (m : CaptureModule) :
    (m.call c).update = some (m.call c).shouldStartProcessing ∨
      (m.call c).update = m.update ∧
        (m.call c).shouldStartProcessing = m.shouldStartProcessing := by
  cases c with
  | startPlayout =>
    simp only [call, startPlayout]
    split_ifs
    · exact Or.inl (by simp [shouldStartProcessing])
    · exact Or.inr ⟨rfl, rfl⟩
  | startRecording =>
    simp only [call, startRecording]
    split_ifs
    · exact Or.inl (by simp [shouldStartProcessing])
    · exact Or.inr ⟨rfl, rfl⟩
  | stopPlayout => exact Or.inl rfl
  | stopRecording => exact Or.inl rfl
  | _ => exact Or.inr ⟨rfl, rfl⟩

/-! ### One step -/

/-- What a step does to the queue and the frames, besides calls of the interface. -/
theorem step_cases {P : CaptureModule → Prop} (a : Action) (h : P m)
    (called : ∀ c, a = .call c → m.update = none → P (m.call c))
    (begun : a = .updateProcessing → m.update = some true → P { m with
      update := none
      processThread := some (m.processThread.getD [] ++ [⟨m.now, .startProcess⟩]) })
    (ended : a = .updateProcessing → m.update = some false → P { m with
      update := none, processThread := none, started := false, frames := [] })
    (ticked : ∀ elapsed, a = .tick elapsed → P { m with now := m.now + elapsed })
    (ignored : ∀ i io queue msg, a = .dispatch i io → m.processThread = some queue →
      queue[i]? = some msg → msg.messageId = .startProcess → m.started = true →
      P { m with processThread := some (queue.eraseIdx i) })
    (framed : ∀ i io queue msg m', a = .dispatch i io → m.processThread = some queue →
      queue[i]? = some msg → msg.due ≤ m.now →
      (msg.messageId = .startProcess → m.started = false) →
      Framed { m with processThread := some (queue.eraseIdx i) } m' io.elapsed → P m') :
    P (m.step a) := by
  unfold step
  by_cases hf : m.fault = true
  · rwa [if_pos hf]
  rw [if_neg hf]
  cases a with
  | call c =>
    dsimp only
    split_ifs with hu
    · exact called c rfl hu
    · exact h
  | updateProcessing =>
    dsimp only
    cases hu : m.update with
    | none => exact h
    | some start =>
      cases start with
      | true => exact begun rfl hu
      | false => exact ended rfl hu
  | tick elapsed => exact ticked elapsed rfl
  | dispatch i io =>
    dsimp only
    cases hr : m.ready i with
    | none => exact h
    | some p =>
      obtain ⟨msg, rest⟩ := p
      unfold ready at hr
      cases hq : m.processThread with
      | none => simp [hq] at hr
      | some queue =>
        cases hi : queue[i]? with
        | none => simp [hq, hi] at hr
        | some msg' =>
          simp only [hq, hi, Option.bind_some, Option.ite_none_right_eq_some, Option.some.injEq,
            Prod.mk.injEq] at hr
          obtain ⟨hdue, rfl, rfl⟩ := hr
          cases hid : msg'.messageId with
          | startProcess =>
            simp only [onMessage, startProcessP, hid]
            split_ifs with hs
            · exact ignored i io queue msg' rfl hq hi hid hs
            · exact framed i io queue msg' _ rfl hq hi hdue (fun _ => by simpa using hs)
                (processFrameP_framed io _)
          | runProcess =>
            simp only [onMessage, hid]
            exact framed i io queue msg' _ rfl hq hi hdue (fun hs => by rw [hid] at hs; cases hs)
              (processFrameP_framed io _)

/-! ### The message of the next frame -/

/-- The processing is on as the flags say, apart from a call in progress; the message of
the next frame is there exactly once after the first frame, and before it there is one
that starts the processing. -/
structure Chained (m : CaptureModule) : Prop where
  flags : ∀ b, m.update = some b → b = m.shouldStartProcessing
  thread : m.update = none → m.processThread.isSome = m.shouldStartProcessing
  idle : m.processThread = none → m.started = false
  one : ∀ queue, m.processThread = some queue →
    queue.countP Message.isRun = if m.started then 1 else 0
  begun : ∀ queue, m.processThread = some queue → m.started = false →
    ∃ msg ∈ queue, msg.messageId = .startProcess

theorem chained_create (now : ℤ) : Chained (create now) where
  flags _ h := by cases h
  thread _ := rfl
  idle _ := rfl
  one _ h := by cases h
  begun _ h := by cases h

/-- Taking a message from the queue. -/
theorem countP_eraseIdx {α : Type*} (p : α → Bool) {xs : List α} {i : ℕ} {x : α}
    (h : xs[i]? = some x) : (xs.eraseIdx i).countP p + (if p x then 1 else 0) = xs.countP p := by
  induction xs generalizing i with
  | nil => simp at h
  | cons y xs ih =>
    cases i with
    | zero =>
      obtain rfl : y = x := by simpa using h
      rw [List.eraseIdx_zero, List.tail_cons, List.countP_cons]
    | succ i =>
      rw [List.eraseIdx_cons_succ, List.countP_cons, List.countP_cons, ← ih (by simpa using h)]
      omega

/-- A frame takes the only message for a frame that there can be. -/
theorem Chained.alone (h : Chained m) {i : ℕ} {queue : List Message} {msg : Message}
    (hq : m.processThread = some queue) (hi : queue[i]? = some msg)
    (hstart : msg.messageId = .startProcess → m.started = false) :
    (queue.eraseIdx i).countP Message.isRun = 0 := by
  have hone := h.one queue hq
  have hcount := countP_eraseIdx Message.isRun hi
  cases hid : msg.messageId with
  | startProcess =>
    rw [hstart hid] at hone
    simp only [Bool.false_eq_true, if_false] at hone
    omega
  | runProcess =>
    have hle : queue.countP Message.isRun ≤ 1 := by
      rw [hone]
      split_ifs <;> omega
    simp only [Message.isRun, hid, decide_true, if_true] at hcount
    omega

theorem Chained.step (h : Chained m) (a : Action) : Chained (m.step a) := by
  apply step_cases a h
  · intro c _ hu
    obtain ⟨hs, -, ht, -, -⟩ := call_course c m
    refine ⟨fun b hb => ?_, fun hn => ?_, fun hn => ?_, fun queue hq => ?_, fun queue hq hns => ?_⟩
    · rcases call_flags c m with hf | ⟨hf, -⟩
      · rw [hf] at hb
        exact (Option.some.inj hb).symm
      · rw [hf, hu] at hb
        cases hb
    · rcases call_flags c m with hf | ⟨-, hf⟩
      · rw [hf] at hn
        cases hn
      · rw [ht, hf]
        exact h.thread hu
    · rw [hs]
      exact h.idle (ht ▸ hn)
    · rw [hs]
      exact h.one queue (ht ▸ hq)
    · exact h.begun queue (ht ▸ hq) (hs ▸ hns)
  · intro _ hu
    refine ⟨fun b hb => (by cases hb), fun _ => h.flags true hu, fun hn => (by cases hn),
      fun queue hq => ?_, fun queue hq _ => ?_⟩
    · rw [← Option.some.inj hq, List.countP_append]
      cases ht : m.processThread with
      | none => simp [h.idle ht, Message.isRun]
      | some queue => simpa [Message.isRun] using h.one queue ht
    · rw [← Option.some.inj hq]
      exact ⟨_, List.mem_append_right _ List.mem_cons_self, rfl⟩
  · intro _ hu
    exact ⟨fun b hb => (by cases hb), fun _ => h.flags false hu, fun _ => rfl,
      fun _ hq => (by cases hq), fun _ hq => (by cases hq)⟩
  · intro elapsed _
    exact ⟨h.flags, h.thread, h.idle, h.one, h.begun⟩
  · intro i io queue msg _ hq hi hid hs
    have hcount := countP_eraseIdx Message.isRun hi
    have hone := h.one queue hq
    refine ⟨h.flags, fun hu => ?_, fun hn => (by cases hn), fun rest hrest => ?_,
      fun rest _ hns => ?_⟩
    · have hthread := h.thread hu
      rw [hq] at hthread
      exact hthread
    · obtain rfl : queue.eraseIdx i = rest := Option.some.inj hrest
      simp only [Message.isRun, hid, reduceCtorEq, decide_false, Bool.false_eq_true, if_false,
        Nat.add_zero] at hcount
      exact hcount.trans hone
    · rw [hs] at hns
      cases hns
  · intro i io queue msg m' _ hq hi _ hstart hm'
    have hnone := h.alone hq hi hstart
    have hshould : m'.shouldStartProcessing = m.shouldStartProcessing := by
      simp only [shouldStartProcessing, hm'.recording, hm'.playing]
    have hthread := hm'.processThread
    rw [Option.map_some] at hthread
    refine ⟨fun b hb => ?_, fun hu => ?_, fun hn => ?_, fun rest hrest => ?_, fun rest _ hns => ?_⟩
    · rw [hshould]
      exact h.flags b (hm'.update ▸ hb)
    · rw [hshould, hthread, ← h.thread (hm'.update ▸ hu), hq]
      rfl
    · rw [hthread] at hn
      cases hn
    · rw [hthread] at hrest
      obtain rfl := Option.some.inj hrest
      rw [List.countP_append, hnone, hm'.started]
      rfl
    · rw [hm'.started] at hns
      cases hns

theorem chained_run (now : ℤ) (as : List Action) : Chained (run step (create now) as) :=
  run_invariant (fun _ a h => h.step a) (chained_create now) as

/-- Between calls, while something is played or recorded, the process thread has exactly
one message for the next frame, or it has not processed the first frame and has a message
to start with; otherwise there is no thread. -/
theorem frames_continue (now : ℤ) (as : List Action)
    (hu : (run step (create now) as).update = none) :
    if (run step (create now) as).shouldStartProcessing then
      ∃ queue, (run step (create now) as).processThread = some queue ∧
        (queue.countP Message.isRun = 1 ∧ (run step (create now) as).started = true ∨
          queue.countP Message.isRun = 0 ∧ (run step (create now) as).started = false ∧
            ∃ msg ∈ queue, msg.messageId = .startProcess)
    else
      (run step (create now) as).processThread = none ∧
        (run step (create now) as).started = false := by
  have h := chained_run now as
  generalize run step (create now) as = m at h hu
  have hthread := h.thread hu
  cases hs : m.shouldStartProcessing with
  | true =>
    rw [hs] at hthread
    obtain ⟨queue, hq⟩ := Option.isSome_iff_exists.mp hthread
    rw [if_pos rfl]
    refine ⟨queue, hq, ?_⟩
    have hone := h.one queue hq
    cases hstarted : m.started with
    | true =>
      rw [hstarted] at hone
      exact Or.inl ⟨hone, rfl⟩
    | false =>
      rw [hstarted] at hone
      exact Or.inr ⟨hone, rfl, h.begun queue hq hstarted⟩
  | false =>
    rw [hs] at hthread
    have hq : m.processThread = none := by simpa using hthread
    rw [if_neg (by simp)]
    exact ⟨hq, h.idle hq⟩

/-- A frame that takes the given time and brings no sound. -/
def quiet (elapsed : ℕ) : FrameIo := ⟨elapsed, List.replicate numberSamples 0, maxVolume⟩

/-- Playing and recording start, and playing stops again. -/
def stillRecording : List Action :=
  [.call .initPlayout, .call .startPlayout, .updateProcessing, .call .initRecording,
    .call .startRecording, .updateProcessing, .dispatch 0 (quiet 1), .dispatch 0 (quiet 1),
    .call .stopPlayout, .updateProcessing]

theorem frames_continue_stillRecording :
    ∃ queue, (run step (create 0) stillRecording).processThread = some queue ∧
      queue.countP Message.isRun = 1 := by
  have h := frames_continue 0 stillRecording (by decide +kernel)
  rw [if_pos (by decide +kernel)] at h
  obtain ⟨queue, hq, h | h⟩ := h
  · exact ⟨queue, hq, h.1⟩
  · have hstarted : (run step (create 0) stillRecording).started = true := by decide +kernel
    rw [h.2.1] at hstarted
    cases hstarted

end CaptureModule

end PeerApi.Audio
