import PeerApi.Session.PeerConnect

/-! The asynchronous send. `Peer::Send` promises a close event when it fails, but the
result of `PeerControl::Send` is dropped by `Control::Send`, which returns at once for
an unknown id. No branch of the four layers delivers or queues anything, so the
promise is kept only by a send that does not fail. -/

namespace PeerApi

/-- The posted message will report the id as closed with a failure. -/
def Message.Fails (peerId : String) (m : Message) : Prop :=
  (m.messageId = .closePeer ∨ m.messageId = .onPeerClose) ∧ m.data.dataString = peerId ∧
    ∃ code, m.data.dataInt32 = some code ∧ code ≠ .normal

namespace World

open Base

variable {env : Env} {w : World} {c : ℕ} {peerId : String} {data : List UInt8}

/-- What an asynchronous send to the id leaves behind: the channel of the registered
object has accepted the data, or the call has delivered or queued a close event of the
id with a failure. -/
def SendAccounted (c : ℕ) (peerId : String) (data : List UInt8) (w w' : World) : Prop :=
  (∃ x, (w.controls c).peers.find? peerId = some x ∧
      w'.handed = w.handed ++ [⟨x, data, true⟩]) ∨
    (∃ d source code desc, code ≠ .normal ∧
      .observer d source (.close peerId code desc) ∈ w'.obs.drop w.obs.length) ∨
    ∃ m ∈ w'.queue.drop w.queue.length, m.Fails peerId

/-- The id is registered, its object is open, its buffer has room, and the channel
takes the data. -/
def Sendable (env : Env) (w : World) (c : ℕ) (peerId : String) : Prop :=
  ∃ x ch, (w.controls c).peers.find? peerId = some x ∧ (w.insts x).state = .open ∧
    (w.insts x).localDataChannel = some ch ∧ ch.bufferedAmount < DataChannel.maxBufferSize ∧
    env.accepted w.handed.length = true

/-- No branch of a send reports anything. -/
theorem controlSend_silent (env : Env) (c : ℕ) (peerId : String) (data : List UInt8) (wait : Bool)
    (w : World) : (w.controlSend env c peerId data wait).obs = w.obs ∧
      (w.controlSend env c peerId data wait).queue = w.queue := by
  rcases controlSend_cases env c peerId data wait w with ⟨handed, returned, he⟩ | ⟨he, -⟩
  · rw [he]
    exact ⟨rfl, rfl⟩
  · rw [he]
    exact ⟨rfl, rfl⟩

/-- What the channel is given, for a registered id. -/
theorem controlSend_handed {x : ℕ} (hx : (w.controls c).peers.find? peerId = some x) :
    (w.controlSend env c peerId data false).handed = w.handed ++ [⟨x, data, true⟩] ↔
      (w.insts x).state = .open ∧ ∃ ch, (w.insts x).localDataChannel = some ch ∧
        ch.bufferedAmount < DataChannel.maxBufferSize ∧
        env.accepted w.handed.length = true := by
  simp only [controlSend, hx, Bool.false_eq_true, if_false, PeerControl.send]
  by_cases hopen : (w.insts x).state = .open
  swap
  · simp [handOver, hopen]
  rw [if_pos hopen]
  cases hch : (w.insts x).localDataChannel with
  | none => simp [crash]
  | some ch =>
    simp only [Option.map_some, handOver, hopen, true_and, List.append_cancel_left_eq,
      Option.some.injEq, exists_eq_left', DataChannel.send]
    by_cases hfull : ch.bufferedAmount ≥ DataChannel.maxBufferSize
    · simp [hfull]
    · simp [hfull, Nat.lt_of_not_le hfull]

/-- In every reachable state of an open peer: an asynchronous send is accepted or
reported exactly when nothing can go wrong with it. -/
theorem send_accounted_iff (env : Env) (as : List Action) (c : ℕ)
    (running : (run (World.step env) init as).fault = none)
    (installed : (run (World.step env) init as).control = some c) (peerId : String)
    (data : List UInt8) :
    SendAccounted c peerId data (run (World.step env) init as)
        ((run (World.step env) init as).api env (.send peerId data false)) ↔
      Sendable env (run (World.step env) init as) c peerId := by
  generalize run (World.step env) init as = w at running installed
  have he : w.api env (.send peerId data false) = w.controlSend env c peerId data false := by
    simp [api, peerSend, running, installed]
  obtain ⟨hobs, hqueue⟩ := controlSend_silent env c peerId data false w
  unfold SendAccounted Sendable
  rw [he, hobs, hqueue]
  constructor
  · rintro (⟨x, hx, hhanded⟩ | ⟨d, source, code, desc, -, hmem⟩ | ⟨m, hm, -⟩)
    · obtain ⟨hopen, ch, hch, hroom, haccepted⟩ := (controlSend_handed hx).mp hhanded
      exact ⟨x, ch, hx, hopen, hch, hroom, haccepted⟩
    · simp at hmem
    · simp at hm
  · rintro ⟨x, ch, hx, hopen, hch, hroom, haccepted⟩
    exact Or.inl ⟨x, hx, (controlSend_handed hx).mpr ⟨hopen, ch, hch, hroom, haccepted⟩⟩

theorem send_accounted_connected :
    SendAccounted 0 "b" [1, 2] (run (World.step (.idle "a" (by decide))) init connected)
      ((run (World.step (.idle "a" (by decide))) init connected).api (.idle "a" (by decide))
        (.send "b" [1, 2] false)) :=
  (send_accounted_iff (.idle "a" (by decide)) connected 0 (by decide +kernel) (by decide +kernel)
    "b" [1, 2]).mpr ⟨0, ⟨.open, .open, 0, true, false⟩, by decide +kernel, by decide +kernel,
      by decide +kernel, by decide +kernel, by decide +kernel⟩

/-- A send to an id that nobody has connected to. -/
theorem send_lost :
    ¬ SendAccounted 0 "b" [1, 2] (run (World.step (.idle "a" (by decide))) init sessionOpen)
      ((run (World.step (.idle "a" (by decide))) init sessionOpen).api (.idle "a" (by decide))
        (.send "b" [1, 2] false)) := by
  have hhanded : ((run (World.step (.idle "a" (by decide))) init sessionOpen).api
      (.idle "a" (by decide)) (.send "b" [1, 2] false)).handed = [] := by decide +kernel
  have hobs : ((run (World.step (.idle "a" (by decide))) init sessionOpen).api
      (.idle "a" (by decide)) (.send "b" [1, 2] false)).obs = [] := by decide +kernel
  have hqueue : ((run (World.step (.idle "a" (by decide))) init sessionOpen).api
      (.idle "a" (by decide)) (.send "b" [1, 2] false)).queue.length = 0 := by decide +kernel
  rw [List.length_eq_zero_iff] at hqueue
  rintro (⟨x, -, hx⟩ | ⟨d, source, code, desc, -, hmem⟩ | ⟨m, hm, -⟩)
  · simp [hhanded] at hx
  · simp [hobs] at hmem
  · simp [hqueue] at hm

end World

end PeerApi
