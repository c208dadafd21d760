import PeerApi.Signal.Interleaving
import PeerApi.Base.Backoff
import Mathlib.Data.Rat.Floor
import Mathlib.Tactic.NormNum

/-! How often and how late the signal connection is tried again. `OnFail` reads the
number of reconnections made, `TimeoutReconnect` counts it up, and `Connect` and
`OnOpen` set it back. So while the attempts of one `Open` keep failing, the k-th
failure finds k reconnections made: it arms the timer with the k-th delay of the
back-off, until the attempts are used up and the failure is reported instead. -/

namespace PeerApi

/-- What one `OnFail` did: the waits it started, and the codes it passed to
`SignalOnClosed_`. -/
structure Failure where
  armed : List Wait
  emitted : List CloseStatus
  deriving DecidableEq, Repr

namespace Signal

/-- The k-th delay: `reconn_delay_ * 1.5 ^ min(k, 32)`, at most
`reconn_delay_max_`, rounded down. -/
def delay (s : Signal) (k : ℕ) : ℕ :=
  Base.backoff (3 / 2 : ℚ) 32 s.reconnDelay s.reconnDelayMax k

theorem nextDelay_eq (s : Signal) : s.nextDelay = s.delay s.reconnMade := by
  have h := Base.backoff_div (K := ℚ) 3 2 32 s.reconnDelay s.reconnDelayMax s.reconnMade
  rw [delay, nextDelay]
  exact h.symm

/-- The settings of the reconnection fit each other and the type `unsigned`. -/
structure Settings (s : Signal) : Prop where
  delay_le : s.reconnDelay ≤ s.reconnDelayMax
  max_lt : s.reconnDelayMax < 2 ^ 32

theorem Settings.delay_between {s : Signal} (h : s.Settings) (k : ℕ) :
    s.reconnDelay ≤ s.delay k ∧ s.delay k ≤ s.reconnDelayMax ∧ s.delay k < 2 ^ 32 := by
  have hm := Base.backoff_le (3 / 2 : ℚ) 32 s.reconnDelay s.reconnDelayMax k
  exact ⟨Base.le_backoff (by norm_num) 32 h.delay_le k, hm, hm.trans_lt h.max_lt⟩

theorem delay_mono (s : Signal) : Monotone s.delay :=
  Base.backoff_mono (by norm_num) 32 s.reconnDelay s.reconnDelayMax

/-- What the handler does, when it is an `OnFail` that runs. -/
def failure (s : Signal) : NetAction → Option Failure
  | .onFail k code =>
    if s.running = true ∧ k ∈ s.attempts then
      some ⟨(s.onFail k code).1.waits.drop s.waits.length, (s.onFail k code).2⟩
    else none
  | _ => none

end Signal

namespace Racing

open Base

/-! ### The settings -/

/-- The argument of a setter is an `unsigned`. -/
def Action.Unsigned : Action → Prop
  | .setReconnectAttempts attempts => attempts < 2 ^ 32
  | .setReconnectDelay millis => millis < 2 ^ 32
  | .setReconnectDelayMax millis => millis < 2 ^ 32
  | _ => True

/-- The three values that only the setters change. -/
def settings (s : Signal) : ℕ × ℕ × ℕ := (s.reconnAttempts, s.reconnDelay, s.reconnDelayMax)

theorem cancelTimer_settings (s : Signal) : settings s.cancelTimer = settings s := by
  unfold Signal.cancelTimer
  split_ifs <;> rfl

theorem connectInternal_settings (s : Signal) (ok : Bool) :
    settings (s.connectInternal ok) = settings s := by
  cases ok <;> rfl

theorem closeInternal_settings (s : Signal) : settings s.closeInternal = settings s := by
  have hc := cancelTimer_settings { s with closes := s.closes.tail }
  unfold Signal.closeInternal
  dsimp only
  cases hh : ({ s with closes := s.closes.tail } : Signal).cancelTimer.conHdl with
  | none => exact hc
  | some k =>
    dsimp only
    split_ifs <;> exact hc

theorem onFail_settings (s : Signal) (k : ℕ) (code : Option CloseStatus) :
    settings (s.onFail k code).1 = settings s := by
  unfold Signal.onFail
  dsimp only
  split_ifs <;> rfl

theorem signal_net_settings (s : Signal) (a : Signal.NetAction) :
    settings (s.net a).1 = settings s := by
  unfold Signal.net
  by_cases hr : s.running = true
  swap
  · rw [if_neg hr]
  rw [if_pos hr]
  cases a with
  | connectInternal ok =>
    dsimp only
    split_ifs
    · exact connectInternal_settings s ok
    · rfl
  | closeInternal =>
    dsimp only
    split_ifs
    · rfl
    · exact closeInternal_settings s
  | onOpen k =>
    dsimp only
    split_ifs
    · simp [settings, Signal.onOpen, Signal.sendOpenCommand, Signal.sendCommand, Signal.opened]
    · rfl
  | onFail k code =>
    dsimp only
    split_ifs
    · exact onFail_settings s k code
    · rfl
  | onClose k code =>
    dsimp only
    split_ifs <;> rfl
  | expire i =>
    dsimp only
    split <;> rfl
  | timeoutReconnect i =>
    dsimp only
    split
    · unfold Signal.timeoutReconnect
      split_ifs <;> rfl
    · rfl
    · rfl
  | exit =>
    dsimp only
    split_ifs <;> rfl

theorem net_settings (r : Racing) (a : Signal.NetAction) :
    settings (r.net a).signal = settings r.signal := by
  cases a with
  | connectInternal ok =>
    simp only [Racing.net]
    split_ifs
    · exact connectInternal_settings r.signal ok
    · rfl
  | closeInternal =>
    simp only [Racing.net]
    split_ifs
    · exact closeInternal_settings r.signal
    · rfl
  | onOpen k => exact signal_net_settings r.signal (.onOpen k)
  | onFail k code => exact signal_net_settings r.signal (.onFail k code)
  | onClose k code => exact signal_net_settings r.signal (.onClose k code)
  | expire i => exact signal_net_settings r.signal (.expire i)
  | timeoutReconnect i => exact signal_net_settings r.signal (.timeoutReconnect i)
  | exit => exact signal_net_settings r.signal .exit

theorem advance_settings (r : Racing) : settings r.advance.signal = settings r.signal := by
  unfold Racing.advance
  cases hc : r.call with
  | idle => rfl
  | timer => rfl
  | cancelled => exact cancelTimer_settings r.signal
  | connecting =>
    dsimp only
    split_ifs <;> rfl
  | joining j =>
    dsimp only
    split_ifs
    · rfl
    · cases j <;> rfl
  | opened sync target => rfl
  | closing sync target => rfl

theorem settings_of_eq {s t : Signal} (h : s.Settings) (he : settings t = settings s) :
    t.Settings := by
  simp only [settings, Prod.mk.injEq] at he
  obtain ⟨-, h1, h2⟩ := he
  exact ⟨by rw [h1, h2]; exact h.delay_le, by rw [h2]; exact h.max_lt⟩

/-- Each setter raises or lowers the other delay to keep the order. -/
theorem settings_step {r : Racing} (h : r.signal.Settings) {a : Action} (ha : a.Unsigned) :
    (r.step a).signal.Settings := by
  have hd := h.delay_le
  have hm := h.max_lt
  cases a with
  | setReconnectAttempts n => exact ⟨hd, hm⟩
  | setReconnectDelay n =>
    simp only [Action.Unsigned] at ha
    refine ⟨?_, ?_⟩ <;> simp only [Racing.step, Signal.setReconnectDelay] <;> split_ifs <;> omega
  | setReconnectDelayMax n =>
    simp only [Action.Unsigned] at ha
    refine ⟨?_, ?_⟩ <;> simp only [Racing.step, Signal.setReconnectDelayMax] <;>
      first | split_ifs <;> omega | omega
  | openWith id password =>
    simp only [Racing.step]
    split_ifs <;> exact ⟨hd, hm⟩
  | close sync =>
    simp only [Racing.step]
    split_ifs <;> exact ⟨hd, hm⟩
  | advance => exact settings_of_eq h (advance_settings r)
  | testOpened => exact ⟨hd, hm⟩
  | send =>
    simp only [Racing.step]
    split_ifs <;> exact ⟨hd, hm⟩
  | net a => exact settings_of_eq h (net_settings r a)

theorem settings_run (as : List Action) (ha : ∀ a ∈ as, a.Unsigned) :
    (run step init as).signal.Settings := by
  induction as using List.reverseRecOn with
  | nil => exact ⟨by decide, by decide⟩
  | append_singleton as a ih =>
    rw [run_append]
    exact settings_step (ih fun b hb => ha b (by simp [hb])) (ha a (by simp))

/-! ### A run of failures -/

/-- What the `OnFail` calls of a run of the network thread did, in order. -/
def failures : Racing → List Signal.NetAction → List Failure
  | _, [] => []
  | r, a :: as => (r.signal.failure a).toList ++ failures (r.net a) as

/-- The codes passed to `SignalOnClosed_` by all handlers of the run. -/
def emitted : Racing → List Signal.NetAction → List CloseStatus
  | _, [] => []
  | r, a :: as => (r.signal.net a).2 ++ emitted (r.net a) as

/-- The reconnections started: the attempts that handlers of the run dispatched. -/
def reconnects : Racing → List Signal.NetAction → ℕ
  | _, [] => 0
  | r, a :: as => ((r.net a).signal.connects - r.signal.connects) + reconnects (r.net a) as

/-- The k-th failure arms the k-th delay; when the attempts are used up, it reports
the failure once and arms nothing. -/
def Scheduled (s : Signal) (k : ℕ) (f : Failure) : Prop :=
  if k < s.reconnAttempts then f = ⟨[.armed (s.delay k)], []⟩
  else f.armed = [] ∧ f.emitted.length = 1

/-- After `k` failures and `n` reconnections since `Open`, which found the settings
of `s`: opening for the n-th reconnection, or closed after it failed. -/
structure Failing (s : Signal) (k n : ℕ) (r : Racing) : Prop where
  settings : Racing.settings r.signal = Racing.settings s
  made : r.signal.reconnMade = n
  bound : n ≤ s.reconnAttempts
  state : r.signal.conState = .opening ∧ k = n ∨
    r.signal.conState = .closed ∧ k = n + 1 ∧ (0 < r.signal.pendingWaits → n < s.reconnAttempts)

theorem Failing.live {s : Signal} {k n : ℕ} {r : Racing} (h : Failing s k n r) (hi : r.Inv) :
    r.signal.live = [] := by
  have hs := hi.state
  unfold StateOk at hs
  rcases h.state with ⟨hc, -⟩ | ⟨hc, -⟩
  · simp only [hc] at hs
    exact hs.1.1
  · simp only [hc] at hs
    exact hs.1.1

theorem Failing.delay {s : Signal} {k n : ℕ} {r : Racing} (h : Failing s k n r) (j : ℕ) :
    r.signal.delay j = s.delay j := by
  have hs := h.settings
  simp only [Racing.settings, Prod.mk.injEq] at hs
  rw [Signal.delay, Signal.delay, hs.2.1, hs.2.2]

/-- Losing waits and moving the attempt along changes nothing here. -/
theorem Failing.of_eq {s : Signal} {k n : ℕ} {r r' : Racing} (h : Failing s k n r)
    (hs : Racing.settings r'.signal = Racing.settings r.signal)
    (hc : r'.signal.conState = r.signal.conState)
    (hm : r'.signal.reconnMade = r.signal.reconnMade)
    (hw : r'.signal.pendingWaits ≤ r.signal.pendingWaits) : Failing s k n r' := by
  refine ⟨hs.trans h.settings, hm.trans h.made, h.bound, ?_⟩
  rw [hc]
  refine h.state.imp id fun ⟨h1, h2, h3⟩ => ⟨h1, h2, fun hp => h3 (by omega)⟩

/-- A failed attempt is the one of the n-th reconnection. -/
theorem Failing.onFail {s : Signal} {k n : ℕ} {r : Racing} (h : Failing s k n r) (hi : r.Inv)
    {c : ℕ} (hc : c ∈ r.signal.attempts) (code : Option CloseStatus) :
    Failing s (k + 1) n { r with signal := (r.signal.onFail c code).1 } ∧
      Scheduled s k ⟨(r.signal.onFail c code).1.waits.drop r.signal.waits.length,
        (r.signal.onFail c code).2⟩ := by
  obtain ⟨-, -, -, hw, -⟩ := hi.of_attempt hc
  have hk : k = n := by
    rcases h.state with ⟨-, h2⟩ | ⟨h1, -⟩
    · exact h2
    · have hs := hi.state
      simp only [StateOk, h1] at hs
      simp [hs.2.2.1] at hc
  have hn : r.signal.reconnAttempts = s.reconnAttempts := congrArg Prod.fst h.settings
  have hd : r.signal.nextDelay = s.delay n := by rw [Signal.nextDelay_eq, h.made, h.delay]
  have hset := (onFail_settings r.signal c code).trans h.settings
  have hm := h.made
  subst hk
  unfold Signal.pendingWaits at hw
  by_cases hlt : k < s.reconnAttempts
  · have he : r.signal.onFail c code =
        ({ r.signal with
          attempts := r.signal.attempts.erase c, conHdl := none, conState := .closed
          reconnTimer := true
          waits := r.signal.waits.map Wait.cancel ++ [.armed (s.delay k)] }, []) := by
      rw [← hd]
      have hlt' : r.signal.reconnMade < r.signal.reconnAttempts := by omega
      exact if_pos hlt'
    rw [he] at hset ⊢
    refine ⟨⟨hset, hm, h.bound, Or.inr ⟨rfl, rfl, fun _ => hlt⟩⟩, ?_⟩
    rw [Scheduled, if_pos hlt]
    simp [List.drop_left']
  · have he : r.signal.onFail c code =
        ({ r.signal with
          attempts := r.signal.attempts.erase c, conHdl := none, conState := .closed },
          [code.getD .abnormalClose]) := by
      have hlt' : ¬ r.signal.reconnMade < r.signal.reconnAttempts := by omega
      exact if_neg hlt'
    rw [he] at hset ⊢
    refine ⟨⟨hset, hm, h.bound, Or.inr ⟨rfl, rfl, fun hp => ?_⟩⟩, ?_⟩
    · simp only [Signal.pendingWaits] at hp
      omega
    · rw [Scheduled, if_neg hlt]
      simp

/-- One handler that is not `OnOpen`, with what it did. -/
structure Tried (s : Signal) (k n : ℕ) (r : Racing) (a : Signal.NetAction) : Prop where
  failing : Failing s (k + (r.signal.failure a).toList.length)
    (n + ((r.net a).signal.connects - r.signal.connects)) (r.net a)
  scheduled : ∀ f ∈ r.signal.failure a, Scheduled s k f
  emitted : (r.signal.net a).2 = (r.signal.failure a).toList.flatMap Failure.emitted

/-- A handler that neither fails an attempt nor dispatches one. -/
theorem Failing.tried {s : Signal} {k n : ℕ} {r : Racing} {a : Signal.NetAction}
    (h : Failing s k n (r.net a)) (hf : r.signal.failure a = none)
    (hn : (r.net a).signal.connects ≤ r.signal.connects) (he : (r.signal.net a).2 = []) :
    Tried s k n r a := by
  refine ⟨?_, by simp [hf], by simp [hf, he]⟩
  rw [hf, Nat.sub_eq_zero_of_le hn]
  exact h

theorem closeInternal_keeps (s : Signal) :
    s.closeInternal.conState = s.conState ∧ s.closeInternal.connects = s.connects ∧
      s.closeInternal.reconnMade = s.reconnMade ∧
      s.closeInternal.pendingWaits ≤ s.pendingWaits := by
  have hc : ∀ t : Signal, t.cancelTimer.conState = t.conState ∧
      t.cancelTimer.connects = t.connects ∧ t.cancelTimer.reconnMade = t.reconnMade ∧
      t.cancelTimer.pendingWaits ≤ t.pendingWaits := by
    intro t
    unfold Signal.cancelTimer
    split_ifs
    · exact ⟨rfl, rfl, rfl, Signal.countP_cancel_le t.waits⟩
    · exact ⟨rfl, rfl, rfl, le_rfl⟩
  have hk := hc { s with closes := s.closes.tail }
  unfold Signal.closeInternal
  dsimp only
  cases hh : ({ s with closes := s.closes.tail } : Signal).cancelTimer.conHdl with
  | none => exact hk
  | some k =>
    dsimp only
    split_ifs <;> exact hk

/-- A handler that only drops or ends waits. -/
theorem Failing.of_waits {s : Signal} {k n : ℕ} {r : Racing} {a : Signal.NetAction}
    (h : Failing s k n r) {ws : List Wait}
    (hw : ws.countP Wait.pending ≤ r.signal.waits.countP Wait.pending)
    (he : r.signal.net a = ({ r.signal with waits := ws }, []))
    (hf : r.signal.failure a = none) (hs : (r.net a).signal = (r.signal.net a).1) :
    Tried s k n r a := by
  rw [he] at hs
  refine Failing.tried ?_ hf (by rw [hs]) (by rw [he])
  apply h.of_eq <;> rw [hs]
  · rfl
  · exact hw

/-- A handler that is not due. -/
theorem Failing.idle {s : Signal} {k n : ℕ} {r : Racing} {a : Signal.NetAction}
    (h : Failing s k n r) (he : r.signal.net a = (r.signal, []))
    (hf : r.signal.failure a = none) (hs : (r.net a).signal = (r.signal.net a).1) :
    Tried s k n r a :=
  h.of_waits le_rfl he hf hs

theorem Failing.timeoutReconnect {s : Signal} {k n : ℕ} {r : Racing} (h : Failing s k n r)
    (hi : r.Inv) (hr : r.signal.running = true) (i : ℕ) :
    Tried s k n r (.timeoutReconnect i) := by
  have hset := net_settings r (.timeoutReconnect i)
  cases hw : r.signal.waits[i]? with
  | none => exact h.idle (by simp [Signal.net, hr, hw]) rfl rfl
  | some w =>
    cases w with
    | armed delay => exact h.idle (by simp [Signal.net, hr, hw]) rfl rfl
    | aborted =>
      have hle := Signal.countP_eraseIdx_le r.signal.waits i
      exact h.of_waits hle (by simp [Signal.net, hr, hw]) rfl rfl
    | expired =>
      -- a wait that expires is pending, so the last failure left attempts
      have hp : 0 < r.signal.pendingWaits :=
        List.countP_pos_iff.mpr ⟨.expired, List.mem_of_getElem? hw, rfl⟩
      obtain ⟨hc, -⟩ := hi.of_pending hp
      obtain ⟨-, hk, hn⟩ := h.state.resolve_left (by simp [hc])
      have he : r.signal.net (.timeoutReconnect i) =
          ({ r.signal with
            waits := r.signal.waits.eraseIdx i
            conState := .opening
            reconnMade := r.signal.reconnMade + 1
            connects := r.signal.connects + 1 }, []) := by
        simp [Signal.net, Signal.timeoutReconnect, hr, hw, hc]
      refine ⟨?_, by simp [Signal.failure], by simp [Signal.failure, he]⟩
      simp only [Racing.net, he] at hset ⊢
      have hlt := hn hp
      refine ⟨hset.trans h.settings, by simp [h.made], ?_, Or.inl ⟨rfl, ?_⟩⟩
      · omega
      · simp [Signal.failure, hk]

theorem Failing.net {s : Signal} {k n : ℕ} {r : Racing} (h : Failing s k n r) (hi : r.Inv)
    {a : Signal.NetAction} (ha : ∀ c, a ≠ .onOpen c) : Tried s k n r a := by
  by_cases hr : r.signal.running = true
  swap
  · have he : r.signal.net a = (r.signal, []) := by simp [Signal.net, hr]
    have hf : r.signal.failure a = none := by cases a <;> simp [Signal.failure, hr]
    have hs : (r.net a).signal = (r.signal.net a).1 := by
      rw [he]
      cases a <;> simp [Racing.net, hr, he]
    exact h.idle he hf hs
  have hset := net_settings r a
  cases a with
  | connectInternal ok =>
    have hkeep : (r.net (.connectInternal ok)).signal.conState = r.signal.conState ∧
        (r.net (.connectInternal ok)).signal.reconnMade = r.signal.reconnMade ∧
        (r.net (.connectInternal ok)).signal.waits = r.signal.waits ∧
        (r.net (.connectInternal ok)).signal.connects ≤ r.signal.connects := by
      simp only [Racing.net]
      split_ifs
      · cases ok <;> simp [Signal.connectInternal]
      · exact ⟨rfl, rfl, rfl, le_rfl⟩
    obtain ⟨h1, h2, h3, h4⟩ := hkeep
    refine Failing.tried (h.of_eq hset h1 h2 ?_) rfl h4 (by simp [Signal.net, hr])
    rw [Signal.pendingWaits, h3]
    rfl
  | closeInternal =>
    have hkeep : (r.net .closeInternal).signal.conState = r.signal.conState ∧
        (r.net .closeInternal).signal.connects = r.signal.connects ∧
        (r.net .closeInternal).signal.reconnMade = r.signal.reconnMade ∧
        (r.net .closeInternal).signal.pendingWaits ≤ r.signal.pendingWaits := by
      simp only [Racing.net]
      split_ifs
      · exact closeInternal_keeps r.signal
      · exact ⟨rfl, rfl, rfl, le_rfl⟩
    obtain ⟨h1, h2, h3, h4⟩ := hkeep
    exact Failing.tried (h.of_eq hset h1 h3 h4) rfl h2.le (by simp [Signal.net, hr])
  | onOpen c => exact absurd rfl (ha c)
  | onFail c code =>
    by_cases hc : c ∈ r.signal.attempts
    · obtain ⟨h1, h2⟩ := h.onFail hi hc code
      have he : r.signal.net (.onFail c code) = r.signal.onFail c code := by
        simp [Signal.net, hr, hc]
      have hf : r.signal.failure (.onFail c code) =
          some ⟨(r.signal.onFail c code).1.waits.drop r.signal.waits.length,
            (r.signal.onFail c code).2⟩ := by
        simp [Signal.failure, hr, hc]
      refine ⟨?_, by simpa [hf] using h2, by simp [hf, he]⟩
      simp only [Racing.net, he, hf, onFail_connects, Nat.sub_self]
      exact ⟨h1.settings, h1.made, h1.bound, h1.state⟩
    · exact h.idle (by simp [Signal.net, hr, hc]) (by simp [Signal.failure, hc]) rfl
  | onClose c code =>
    have hc : c ∉ r.signal.live := by simp [h.live hi]
    exact h.idle (by simp [Signal.net, hr, hc]) rfl rfl
  | expire i =>
    cases hw : r.signal.waits[i]? with
    | none => exact h.idle (by simp [Signal.net, hr, hw]) rfl rfl
    | some w =>
      cases w with
      | armed delay =>
        have hle := (Signal.countP_expire r.signal.waits i hw).le
        exact h.of_waits hle (by simp [Signal.net, hr, hw]) rfl rfl
      | expired => exact h.idle (by simp [Signal.net, hr, hw]) rfl rfl
      | aborted => exact h.idle (by simp [Signal.net, hr, hw]) rfl rfl
  | timeoutReconnect i => exact h.timeoutReconnect hi hr i
  | exit =>
    have hkeep : (r.net .exit).signal.conState = r.signal.conState ∧
        (r.net .exit).signal.reconnMade = r.signal.reconnMade ∧
        (r.net .exit).signal.waits = r.signal.waits ∧
        (r.net .exit).signal.connects = r.signal.connects := by
      simp only [Racing.net, Signal.net, if_pos hr]
      split_ifs <;> exact ⟨rfl, rfl, rfl, rfl⟩
    obtain ⟨h1, h2, h3, h4⟩ := hkeep
    refine Failing.tried (h.of_eq hset h1 h2 ?_) rfl h4.le (by simp [Signal.net, hr])
    rw [Signal.pendingWaits, h3]
    rfl

theorem Failing.run {s : Signal} {k n : ℕ} {r : Racing} (h : Failing s k n r) (hi : r.Inv)
    {as : List Signal.NetAction} (ha : ∀ c, .onOpen c ∉ as) :
    n + reconnects r as ≤ s.reconnAttempts ∧
      k + (failures r as).length ≤ s.reconnAttempts + 1 ∧
      (∀ j f, (failures r as)[j]? = some f → Scheduled s (k + j) f) ∧
      Racing.emitted r as = (failures r as).flatMap Failure.emitted := by
  induction as generalizing k n r with
  | nil =>
    have hb := h.bound
    have hk : k ≤ n + 1 := by
      rcases h.state with ⟨-, h2⟩ | ⟨-, h2, -⟩ <;> omega
    refine ⟨hb, ?_, by simp [failures], rfl⟩
    simp only [failures, List.length_nil]
    omega
  | cons a as ih =>
    have ht : Tried s k n r a := h.net hi fun c hc => ha c (by simp [hc])
    obtain ⟨h1, h2, h3, h4⟩ := ih ht.failing (hi.net a) fun c hc => ha c (by simp [hc])
    refine ⟨?_, ?_, fun j f hj => ?_, ?_⟩
    · simp only [reconnects]
      omega
    · simp only [failures, List.length_append]
      omega
    · simp only [failures] at hj
      cases hf : r.signal.failure a with
      | none =>
        rw [hf] at hj h3
        exact h3 j f hj
      | some g =>
        rw [hf] at hj h3
        cases j with
        | zero =>
          obtain rfl : g = f := by simpa using hj
          exact ht.scheduled g hf
        | succ j =>
          have := h3 j f (by simpa using hj)
          rwa [show k + (some g).toList.length + j = k + (j + 1) by simp; omega] at this
    · simp only [Racing.emitted, failures, List.flatMap_append, ht.emitted, h4]

/-- The next statement of the user thread's `Open` starts a run loop: there is no
thread to wait for, or it has ended. -/
def Starts (r : Racing) : Prop :=
  r.call = .connecting ∧ r.signal.thread = false ∨
    r.call = .joining .connect ∧ r.signal.running = false

instance (r : Racing) : Decidable r.Starts :=
  inferInstanceAs (Decidable (_ ∨ _))

theorem Starts.failing {r : Racing} (h : r.Starts) : Failing r.signal 0 0 r.advance := by
  have hset := advance_settings r
  rcases h with ⟨hc, ht⟩ | ⟨hc, hr⟩
  · have he : r.advance =
        { r with
          signal := r.signal.startLoop
          dispatched := r.dispatched ++ [.connectInternal]
          call := .idle } := by
      simp [Racing.advance, hc, ht]
    rw [he] at hset ⊢
    exact ⟨hset, rfl, Nat.zero_le _, Or.inl ⟨rfl, rfl⟩⟩
  · have he : r.advance =
        { r with
          signal := { r.signal with thread := false }.startLoop
          dispatched := r.dispatched ++ [.connectInternal]
          call := .idle } := by
      simp [Racing.advance, hc, hr]
    rw [he] at hset ⊢
    exact ⟨hset, rfl, Nat.zero_le _, Or.inl ⟨rfl, rfl⟩⟩

/-- After any history of the signal connection: the delays are in order, and so is
the back-off between them. When an `Open` then starts to connect, and no attempt
succeeds and the user makes no call, the k-th failure arms the k-th delay, the one
after the last attempt arms nothing and is reported once, and nothing else is
reported. A success sets the count back. -/
theorem reconnection_backs_off (history : List Action) (unsigned : ∀ a ∈ history, a.Unsigned) :
    let r := run step init history
    r.signal.reconnDelay ≤ r.signal.reconnDelayMax ∧
      (∀ k, r.signal.reconnDelay ≤ r.signal.delay k ∧
        r.signal.delay k ≤ r.signal.reconnDelayMax ∧ r.signal.delay k < 2 ^ 32) ∧
      Monotone r.signal.delay ∧
      (r.Starts → ∀ as : List Signal.NetAction, (∀ c, .onOpen c ∉ as) →
        reconnects r.advance as ≤ r.signal.reconnAttempts ∧
          (failures r.advance as).length ≤ r.signal.reconnAttempts + 1 ∧
          (∀ k f, (failures r.advance as)[k]? = some f → Scheduled r.signal k f) ∧
          emitted r.advance as = (failures r.advance as).flatMap Failure.emitted) ∧
      ∀ c ∈ r.signal.attempts, (r.net (.onOpen c)).signal.reconnMade = 0 := by
  intro r
  have hi : r.Inv := inv_run history
  have hs : r.signal.Settings := settings_run history unsigned
  refine ⟨hs.delay_le, hs.delay_between, r.signal.delay_mono, fun hst as ha => ?_, fun c hc => ?_⟩
  · obtain ⟨h1, h2, h3, h4⟩ := hst.failing.run hi.advance ha
    exact ⟨by omega, by omega, by simpa using h3, h4⟩
  · have hr : r.signal.running = true := by
      by_contra hr
      simp [(hi.idle (by simpa using hr)).2.1] at hc
    simp [Racing.net, Signal.net, hr, hc, Signal.onOpen, Signal.sendOpenCommand,
      Signal.sendCommand, Signal.opened]

/-- One reconnection after a second, and both attempts fail. -/
def triedTwice : List Signal.NetAction :=
  [.connectInternal true, .onFail 0 none, .expire 0, .timeoutReconnect 0, .connectInternal true,
    .onFail 1 none]

theorem reconnection_backs_off_twice :
    let history : List Action :=
      [.setReconnectAttempts 1, .setReconnectDelay 1000, .openWith "user" "password"]
    let r := run step init history
    failures r.advance triedTwice =
        [⟨[.armed 1000], []⟩, ⟨[], [CloseStatus.abnormalClose]⟩] ∧
      (∀ k f, (failures r.advance triedTwice)[k]? = some f → Scheduled r.signal k f) ∧
      emitted r.advance triedTwice = [CloseStatus.abnormalClose] := by
  intro history r
  have h := reconnection_backs_off history (by simp [history, Action.Unsigned])
  have hs := h.2.2.2.1 (by decide +kernel) triedTwice (by simp [triedTwice])
  exact ⟨by decide +kernel, hs.2.2.1, by decide +kernel⟩

end Racing

end PeerApi
