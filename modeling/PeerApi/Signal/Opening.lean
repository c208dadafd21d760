import PeerApi.Signal.Interleaving

/-! The state `con_opening` as a promise that an attempt is under way. Every path
into the state dispatches `ConnectInternal`, and every report on an attempt leaves
it. The promise is broken in one place only: `ConnectInternal` gives up when
`get_connection` reports an error, for a url that is not valid or not supported,
and leaves the state as it is. Nothing is left then that could change it, and
`Connect` takes the state for a connection that exists. -/

namespace PeerApi.Racing

open Base

/-- While opening, the run loop is there and has an attempt to start or to report
on. -/
def Outstanding (r : Racing) : Prop :=
  r.signal.conState = .opening →
    r.signal.running = true ∧ (.connectInternal ∈ r.dispatched ∨ r.signal.attempts ≠ [])

/-- `ConnectInternal` runs, and `get_connection` reports an error. -/
def GetConnectionFails (r : Racing) (a : Action) : Prop :=
  a = .net (.connectInternal false) ∧ r.signal.running = true ∧
    r.dispatched.head? = some .connectInternal

/-- While opening, an attempt is counted. -/
def Attempted (r : Racing) : Prop :=
  r.signal.conState = .opening → 0 < r.signal.connects + r.signal.attempts.length

theorem Inv.outstanding_iff {r : Racing} (h : r.Inv) : r.Outstanding ↔ r.Attempted := by
  have hd : Handler.connectInternal ∈ r.dispatched ↔ 0 < r.signal.connects := by
    rw [h.order]
    simp [List.mem_replicate, Nat.pos_iff_ne_zero]
  have ha : r.signal.attempts ≠ [] ↔ 0 < r.signal.attempts.length := List.length_pos_iff.symm
  unfold Outstanding Attempted
  refine ⟨fun hr ho => ?_, fun hr ho => ?_⟩
  · have := (hr ho).2
    rw [hd, ha] at this
    omega
  · have hp := hr ho
    refine ⟨?_, by rw [hd, ha]; omega⟩
    -- a loop that has ended has left no attempt behind
    by_contra hn
    obtain ⟨h1, h2, -⟩ := h.idle (by simpa using hn)
    simp [h1, h2] at hp

/-- The promise concerns three fields only. -/
theorem Attempted.of_eq {r r' : Racing} (h : r.Attempted)
    (hc : r'.signal.conState = r.signal.conState) (hn : r'.signal.connects = r.signal.connects)
    (ha : r'.signal.attempts = r.signal.attempts) : r'.Attempted := by
  unfold Attempted at h ⊢
  rw [hc, hn, ha]
  exact h

theorem Attempted.of_state {r : Racing} (h : r.signal.conState ≠ .opening) : r.Attempted :=
  fun ho => absurd ho h

theorem cancelTimer_attempt (s : Signal) :
    s.cancelTimer.conState = s.conState ∧ s.cancelTimer.connects = s.connects ∧
      s.cancelTimer.attempts = s.attempts := by
  unfold Signal.cancelTimer
  split_ifs <;> exact ⟨rfl, rfl, rfl⟩

theorem closeInternal_attempt (s : Signal) :
    s.closeInternal.conState = s.conState ∧ s.closeInternal.connects = s.connects ∧
      s.closeInternal.attempts = s.attempts := by
  have hk := cancelTimer_attempt { s with closes := s.closes.tail }
  unfold Signal.closeInternal
  dsimp only
  cases hh : ({ s with closes := s.closes.tail } : Signal).cancelTimer.conHdl with
  | none => exact hk
  | some k =>
    dsimp only
    split_ifs <;> exact hk

theorem attempted_startLoop (r : Racing) (s : Signal) (hs : List Handler) (c : Call) :
    Attempted { r with signal := s.startLoop, dispatched := hs, call := c } := by
  intro _
  simp only [Signal.startLoop]
  omega

theorem Attempted.advance {r : Racing} (h : r.Attempted) : r.advance.Attempted := by
  unfold Racing.advance
  cases hc : r.call with
  | idle => exact h
  | timer => exact h.of_eq rfl rfl rfl
  | cancelled =>
    obtain ⟨h1, h2, h3⟩ := cancelTimer_attempt r.signal
    exact h.of_eq h1 h2 h3
  | connecting =>
    dsimp only
    split_ifs
    · exact h.of_eq rfl rfl rfl
    · exact h.of_eq rfl rfl rfl
    · exact attempted_startLoop r _ _ _
  | joining j =>
    dsimp only
    split_ifs
    · exact h
    · cases j with
      | connect => exact attempted_startLoop r _ _ _
      | syncClose => exact h.of_eq rfl rfl rfl
  | opened sync target => exact Attempted.of_state (by simp)
  | closing sync target => exact h.of_eq rfl rfl rfl

theorem onFail_state (s : Signal) (k : ℕ) (code : Option CloseStatus) :
    (s.onFail k code).1.conState = .closed := by
  unfold Signal.onFail
  dsimp only
  split_ifs <;> rfl

theorem onOpen_state (s : Signal) (k : ℕ) : (s.onOpen k).conState = .opened := by
  simp [Signal.onOpen, Signal.sendOpenCommand, Signal.sendCommand, Signal.opened]

/-- A handler that is not `ConnectInternal` keeps the promise: it leaves the three
fields alone, leaves the state, or dispatches an attempt. -/
theorem Attempted.signal_net {s : Signal}
    (h : s.conState = .opening → 0 < s.connects + s.attempts.length) {a : Signal.NetAction}
    (ha : ∀ ok, a ≠ .connectInternal ok) :
    (s.net a).1.conState = .opening → 0 < (s.net a).1.connects + (s.net a).1.attempts.length := by
  unfold Signal.net
  by_cases hr : s.running = true
  swap
  · rw [if_neg hr]
    exact h
  rw [if_pos hr]
  cases a with
  | connectInternal ok => exact absurd rfl (ha ok)
  | closeInternal =>
    dsimp only
    split_ifs
    · exact h
    · obtain ⟨h1, h2, h3⟩ := closeInternal_attempt s
      rw [h1, h2, h3]
      exact h
  | onOpen k =>
    dsimp only
    split_ifs
    · intro ho
      simp [onOpen_state] at ho
    · exact h
  | onFail k code =>
    dsimp only
    split_ifs
    · intro ho
      simp [onFail_state] at ho
    · exact h
  | onClose k code =>
    dsimp only
    split_ifs
    · intro ho
      simp [Signal.onClose] at ho
    · exact h
  | expire i =>
    dsimp only
    split <;> exact h
  | timeoutReconnect i =>
    dsimp only
    split
    · unfold Signal.timeoutReconnect
      split_ifs
      · intro _
        dsimp only
        omega
      · exact h
    · exact h
    · exact h
  | exit =>
    dsimp only
    split_ifs <;> exact h

theorem Attempted.net {r : Racing} (h : r.Attempted) {a : Signal.NetAction}
    (ha : ¬ GetConnectionFails r (.net a)) : (r.net a).Attempted := by
  cases a with
  | connectInternal ok =>
    simp only [Racing.net]
    split_ifs with hd
    · cases ok with
      | true =>
        intro _
        simp only [Signal.connectInternal, if_true, List.length_cons]
        omega
      | false => exact absurd ⟨rfl, hd⟩ ha
    · exact h
  | closeInternal =>
    simp only [Racing.net]
    split_ifs
    · obtain ⟨h1, h2, h3⟩ := closeInternal_attempt r.signal
      exact h.of_eq h1 h2 h3
    · exact h
  | onOpen k => exact Attempted.signal_net h (fun _ hc => by cases hc)
  | onFail k code => exact Attempted.signal_net h (fun _ hc => by cases hc)
  | onClose k code => exact Attempted.signal_net h (fun _ hc => by cases hc)
  | expire i => exact Attempted.signal_net h (fun _ hc => by cases hc)
  | timeoutReconnect i => exact Attempted.signal_net h (fun _ hc => by cases hc)
  | exit => exact Attempted.signal_net h (fun _ hc => by cases hc)

theorem Attempted.step {r : Racing} (h : r.Attempted) {a : Action}
    (ha : ¬ GetConnectionFails r a) : (r.step a).Attempted := by
  cases a with
  | setReconnectAttempts n => exact h.of_eq rfl rfl rfl
  | setReconnectDelay n => exact h.of_eq rfl rfl rfl
  | setReconnectDelayMax n => exact h.of_eq rfl rfl rfl
  | openWith id password =>
    simp only [Racing.step]
    split_ifs <;> exact h.of_eq rfl rfl rfl
  | close sync =>
    simp only [Racing.step]
    split_ifs <;> exact h.of_eq rfl rfl rfl
  | advance => exact h.advance
  | testOpened => exact h.of_eq rfl rfl rfl
  | send =>
    simp only [Racing.step]
    split_ifs <;> exact h.of_eq rfl rfl rfl
  | net a => exact h.net ha

/-- The failed `ConnectInternal` was the only attempt, and the state stays. -/
theorem Inv.getConnectionFails {r : Racing} (h : r.Inv) {a : Action}
    (ha : GetConnectionFails r a) : ¬ (r.step a).Attempted := by
  obtain ⟨rfl, hr, hd⟩ := ha
  have hp := (h.connects_pos hd).1
  have ho := h.opening_of_connects hp
  have hs := h.state
  simp only [StateOk, ho] at hs
  have hn := hs.2.2.1
  intro hk
  have hstep : r.step (.net (.connectInternal false)) =
      { r with signal := r.signal.connectInternal false, dispatched := r.dispatched.tail } := by
    simp [Racing.step, Racing.net, hr, hd]
  rw [hstep] at hk
  have := hk (by simp [Signal.connectInternal, ho])
  simp only [Signal.connectInternal, Bool.false_eq_true, if_false] at this
  omega

/-- The promise holds along a run exactly when no `ConnectInternal` of the run
fails. -/
theorem Inv.outstanding_along {r : Racing} (h : r.Inv) (ha : r.Attempted) (as : List Action) :
    (∀ bs, bs <+: as → (run Racing.step r bs).Outstanding) ↔
      Along Racing.step (fun r a => ¬ GetConnectionFails r a) r as := by
  induction as generalizing r with
  | nil =>
    refine ⟨fun _ => trivial, fun _ bs hb => ?_⟩
    rw [List.prefix_nil.mp hb]
    exact h.outstanding_iff.mpr ha
  | cons a as ih =>
    refine ⟨fun ho => ?_, fun ⟨hok, hal⟩ bs hb => ?_⟩
    · -- the state after the first step tells whether it was the failing one
      have hnext : (r.step a).Outstanding := ho [a] ⟨as, rfl⟩
      have hkept : (r.step a).Attempted := (h.step a).outstanding_iff.mp hnext
      refine ⟨fun hf => h.getConnectionFails hf hkept, ?_⟩
      apply (ih (h.step a) hkept).mp
      intro bs hb
      exact ho (a :: bs) ((List.prefix_cons_inj a).mpr hb)
    · cases bs with
      | nil => exact h.outstanding_iff.mpr ha
      | cons b bs =>
        obtain ⟨rfl, hb'⟩ := List.cons_prefix_cons.mp hb
        exact (ih (h.step b) (ha.step hok)).mpr hal bs hb'

/-- For every interleaving of the user thread with the handlers: an attempt is
outstanding in every opening state on the way exactly when `get_connection` reports
no error to a `ConnectInternal` that runs. -/
theorem opening_outstanding_iff (as : List Action) :
    (∀ bs, bs <+: as → (run step init bs).Outstanding) ↔
      Along step (fun r a => ¬ GetConnectionFails r a) init as :=
  inv_init.outstanding_along (Attempted.of_state (by simp [init, Signal.init])) as

/-- Open with a url that `get_connection` rejects: the loop ends while opening, and
the next `Open` does nothing about it. -/
theorem opening_stuck :
    ¬ (run step init [.openWith "user" "password", .advance,
        .net (.connectInternal false)]).Outstanding ∧
      ¬ (run step init [.openWith "user" "password", .advance, .net (.connectInternal false),
        .net .exit, .openWith "user" "password", .advance]).Outstanding := by
  refine ⟨fun h => ?_, fun h => ?_⟩
  · have := h (by decide +kernel)
    revert this
    decide +kernel
  · have := h (by decide +kernel)
    revert this
    decide +kernel

end PeerApi.Racing
