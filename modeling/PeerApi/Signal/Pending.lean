import PeerApi.Signal.Connection
import Mathlib.Data.List.Count

/-! What the connection state says about the work that is pending on the
network thread: an attempt exists only while opening, a live connection only
while opened or closing, and a reconnect timer only while closed, each at most
once; a timer that still runs is the one that `Connect` can cancel. The invariant holds in every reachable state of the signal connection, for
any interleaving of the user thread with the handlers. -/

namespace PeerApi

/-- The wait can still lead to a reconnection. -/
def Wait.pending : Wait → Bool
  | .armed _ => true
  | .expired => true
  | .aborted => false

namespace Signal

def pendingWaits (s : Signal) : ℕ := s.waits.countP Wait.pending

def StateOk (s : Signal) : Prop :=
  match s.conState with
  | .opening => s.live = [] ∧ s.pendingWaits = 0 ∧ s.connects + s.attempts.length ≤ 1
  | .opened => s.connects = 0 ∧ s.attempts = [] ∧ s.pendingWaits = 0 ∧
      ∃ k, s.live = [k] ∧ s.conHdl = some k
  | .closing => s.connects = 0 ∧ s.attempts = [] ∧ s.pendingWaits = 0 ∧
      ∃ k, s.live = [k] ∧ s.conHdl = some k
  | .closed => s.connects = 0 ∧ s.attempts = [] ∧ s.live = [] ∧ s.pendingWaits ≤ 1

structure Inv (s : Signal) : Prop where
  thread : s.running = true → s.thread = true
  idle : s.running = false → s.drained = true
  state : s.StateOk
  timer : s.reconnTimer = false → ∀ delay, .armed delay ∉ s.waits

theorem inv_init : init.Inv :=
  ⟨by simp [init], by simp [init, drained], by simp [init, StateOk, pendingWaits], by simp [init]⟩

/-! ### Timer waits -/

theorem countP_cancel_le (ws : List Wait) :
    (ws.map Wait.cancel).countP Wait.pending ≤ ws.countP Wait.pending := by
  induction ws with
  | nil => simp
  | cons w ws ih =>
    simp only [List.map_cons, List.countP_cons]
    cases w <;> simp [Wait.cancel, Wait.pending, -List.countP_map] <;> omega

theorem armed_notMem_cancel (ws : List Wait) (delay : ℕ) : .armed delay ∉ ws.map Wait.cancel := by
  intro h
  obtain ⟨w, -, hw⟩ := List.mem_map.mp h
  cases w <;> cases hw

theorem countP_expire (ws : List Wait) (i : ℕ) {delay : ℕ} (h : ws[i]? = some (.armed delay)) :
    (ws.set i .expired).countP Wait.pending = ws.countP Wait.pending := by
  induction ws generalizing i with
  | nil => simp at h
  | cons w ws ih =>
    cases i with
    | zero => simp only [List.getElem?_cons_zero, Option.some.injEq] at h; subst h; rfl
    | succ i => simp only [List.set_cons_succ, List.countP_cons, ih i h]

theorem countP_eraseIdx_expired (ws : List Wait) (i : ℕ) (h : ws[i]? = some .expired) :
    (ws.eraseIdx i).countP Wait.pending + 1 = ws.countP Wait.pending := by
  induction ws generalizing i with
  | nil => simp at h
  | cons w ws ih =>
    cases i with
    | zero =>
      simp only [List.getElem?_cons_zero, Option.some.injEq] at h
      subst h
      simp [List.countP_cons, Wait.pending]
    | succ i =>
      have := ih i h
      simp only [List.eraseIdx_cons_succ, List.countP_cons]
      omega

theorem countP_eraseIdx_le (ws : List Wait) (i : ℕ) :
    (ws.eraseIdx i).countP Wait.pending ≤ ws.countP Wait.pending :=
  (List.eraseIdx_sublist ws i).countP_le

/-- Fewer pending waits and nothing else changed: the state is still accounted
for. -/
theorem StateOk.of_waits {s : Signal} (h : s.StateOk) {ws : List Wait}
    (hw : ws.countP Wait.pending ≤ s.waits.countP Wait.pending) :
    StateOk { s with waits := ws } := by
  unfold StateOk pendingWaits at *
  cases hc : s.conState <;> simp only [hc] at h ⊢
  · exact ⟨h.1, by omega, h.2.2⟩
  · exact ⟨h.1, h.2.1, by omega, h.2.2.2⟩
  · exact ⟨h.1, h.2.1, by omega, h.2.2.2⟩
  · exact ⟨h.1, h.2.1, h.2.2.1, by omega⟩

theorem drained_of_waits {s : Signal} (h : s.drained = true) (f : Wait → Wait) :
    drained { s with waits := s.waits.map f } = true := by
  simp only [drained, decide_eq_true_eq] at h ⊢
  obtain ⟨h1, h2, h3, h4, h5⟩ := h
  exact ⟨h1, h2, h3, h4, by rw [h5]; rfl⟩

theorem Inv.cancelTimer {s : Signal} (h : s.Inv) : s.cancelTimer.Inv := by
  unfold Signal.cancelTimer
  split_ifs with ht
  · refine ⟨h.thread, fun hr => drained_of_waits (h.idle hr) _, ?_, ?_⟩
    · exact h.state.of_waits (countP_cancel_le s.waits)
    · exact fun _ => armed_notMem_cancel s.waits
  · exact h

/-! ### The user thread -/

theorem Inv.startLoop {s : Signal} (h : s.Inv) (hr : s.running = false) : s.startLoop.Inv := by
  have hd := h.idle hr
  simp only [drained, decide_eq_true_eq] at hd
  obtain ⟨h1, -, h3, h4, h5⟩ := hd
  refine ⟨fun _ => rfl, fun h => by simp [Signal.startLoop] at h, ?_, h.timer⟩
  simp [StateOk, Signal.startLoop, pendingWaits, h1, h3, h4, h5]

theorem Inv.openWith {s : Signal} (h : s.Inv) (id password : String) :
    (s.openWith id password).Inv := by
  have hc : ({ s with userId := id, userPassword := password }.cancelTimer).Inv :=
    Inv.cancelTimer ⟨h.thread, h.idle, h.state, h.timer⟩
  unfold Signal.openWith Signal.connect
  generalize ({ s with userId := id, userPassword := password } : Signal).cancelTimer = t at hc
  dsimp only
  split_ifs with ht hs
  · exact ⟨hc.thread, hc.idle, hc.state, hc.timer⟩
  · exact hc
  · exact hc.startLoop (by cases hr : t.running with
      | false => rfl
      | true => exact absurd (hc.thread hr) ht)

theorem opened_iff (s : Signal) : s.opened = true ↔ s.conState = .opened := by simp [opened]

theorem Inv.close {s : Signal} (h : s.Inv) : s.close.Inv := by
  unfold Signal.close
  split_ifs with ho
  · rw [opened_iff] at ho
    have hs := h.state
    simp only [StateOk, ho] at hs
    obtain ⟨h1, h2, h3, k, hl, hk⟩ := hs
    refine ⟨h.thread, fun hr => ?_, ?_, h.timer⟩
    · -- a live connection keeps the loop running
      have hd := h.idle hr
      simp [drained, hl] at hd
    · exact ⟨h1, h2, h3, k, hl, hk⟩
  · exact h

theorem Inv.syncClose {s : Signal} (h : s.Inv) : s.syncClose.Inv := by
  unfold Signal.syncClose
  by_cases ho : s.opened = true
  · rw [if_pos ho]
    exact ⟨h.close.thread, h.close.idle, h.close.state, h.close.timer⟩
  · rw [if_neg ho]
    exact h

theorem Inv.joined {s : Signal} (h : s.Inv) (hr : s.running = false) : s.joined.Inv := by
  have ht : Inv { s with joining := none, thread := false } :=
    ⟨fun hr' => by simp [hr] at hr', h.idle, h.state, h.timer⟩
  unfold Signal.joined
  split
  · exact ht.startLoop hr
  · exact ht
  · exact h

/-! ### The run loop -/

theorem Inv.connectInternal {s : Signal} (h : s.Inv) (hr : s.running = true) (hc : 0 < s.connects)
    (ok : Bool) : (s.connectInternal ok).Inv := by
  have hs := h.state
  have ho : s.conState = .opening := by
    unfold StateOk at hs
    cases hcs : s.conState <;> simp only [hcs] at hs <;> first | rfl | omega
  simp only [StateOk, ho] at hs
  obtain ⟨hl, hw, hn⟩ := hs
  unfold pendingWaits at hw
  cases ok
  · refine ⟨h.thread, fun hr' => by simp [Signal.connectInternal, hr] at hr', ?_,
      h.timer⟩
    simp only [StateOk, Signal.connectInternal, ho, pendingWaits, Bool.false_eq_true, if_false]
    exact ⟨hl, hw, by omega⟩
  · refine ⟨h.thread, fun hr' => by simp [Signal.connectInternal, hr] at hr', ?_,
      h.timer⟩
    simp only [StateOk, Signal.connectInternal, ho, pendingWaits, if_true, List.length_cons]
    exact ⟨hl, hw, by omega⟩

theorem Inv.closeInternal {s : Signal} (h : s.Inv) (hr : s.running = true) :
    s.closeInternal.Inv := by
  have ht : Inv ({ s with closes := s.closes.tail } : Signal).cancelTimer :=
    Inv.cancelTimer ⟨h.thread, fun hr' => by simp [hr] at hr', h.state, h.timer⟩
  have hk : ∀ (t : Signal) (l : List (Option ℕ × ℕ)), t.Inv → Inv { t with closed := l } :=
    fun t l ht => ⟨ht.thread, ht.idle, ht.state, ht.timer⟩
  unfold Signal.closeInternal
  dsimp only
  split
  · split_ifs
    · exact ht
    · exact hk _ _ ht
  · exact ht

/-- An attempt is only reported on while opening, and it is the only one. -/
theorem Inv.of_attempt {s : Signal} (h : s.Inv) {k : ℕ} (hk : k ∈ s.attempts) :
    s.conState = .opening ∧ s.attempts = [k] ∧ s.connects = 0 ∧ s.live = [] ∧
      s.pendingWaits = 0 := by
  have hs := h.state
  unfold StateOk at hs
  cases hc : s.conState with
  | opening =>
    simp only [hc] at hs
    obtain ⟨hl, hw, hn⟩ := hs
    obtain ⟨x, hx⟩ : ∃ x, s.attempts = [x] := by
      apply List.length_eq_one_iff.mp
      have := List.length_pos_of_mem hk
      omega
    rw [hx] at hk hn
    simp only [List.mem_singleton] at hk
    subst hk
    exact ⟨rfl, hx, by simpa using hn, hl, hw⟩
  | opened => simp [hc] at hs; simp [hs.2.1] at hk
  | closing => simp [hc] at hs; simp [hs.2.1] at hk
  | closed => simp [hc] at hs; simp [hs.2.1] at hk

/-- A connection that is live is the only one, and the state is opened or closing. -/
theorem Inv.of_live {s : Signal} (h : s.Inv) {k : ℕ} (hk : k ∈ s.live) :
    (s.conState = .opened ∨ s.conState = .closing) ∧ s.live = [k] ∧ s.conHdl = some k ∧
      s.connects = 0 ∧ s.attempts = [] ∧ s.pendingWaits = 0 := by
  have hs := h.state
  unfold StateOk at hs
  cases hc : s.conState with
  | opening => simp [hc] at hs; simp [hs.1] at hk
  | opened =>
    simp only [hc] at hs
    obtain ⟨h1, h2, h3, k', hl, hh⟩ := hs
    rw [hl, List.mem_singleton] at hk
    subst hk
    exact ⟨Or.inl rfl, hl, hh, h1, h2, h3⟩
  | closing =>
    simp only [hc] at hs
    obtain ⟨h1, h2, h3, k', hl, hh⟩ := hs
    rw [hl, List.mem_singleton] at hk
    subst hk
    exact ⟨Or.inr rfl, hl, hh, h1, h2, h3⟩
  | closed => simp [hc] at hs; simp [hs.2.2.1] at hk

theorem Inv.onOpen {s : Signal} (h : s.Inv) (hr : s.running = true) {k : ℕ} (hk : k ∈ s.attempts) :
    (s.onOpen k).Inv := by
  obtain ⟨-, ha, hn, hl, hw⟩ := h.of_attempt hk
  unfold pendingWaits at hw
  simp only [Signal.onOpen, sendOpenCommand, sendCommand, opened, decide_true, if_true,
    String.reduceEq, if_false]
  refine ⟨h.thread, fun hr' => by simp [hr] at hr', ?_, h.timer⟩
  simp [StateOk, pendingWaits, ha, hn, hl, hw]

theorem Inv.onFail {s : Signal} (h : s.Inv) (hr : s.running = true) {k : ℕ} (hk : k ∈ s.attempts)
    (code : Option CloseStatus) : (s.onFail k code).1.Inv := by
  obtain ⟨-, ha, hn, hl, hw⟩ := h.of_attempt hk
  unfold pendingWaits at hw
  have hw' := countP_cancel_le s.waits
  unfold Signal.onFail
  dsimp only
  split_ifs
  · refine ⟨h.thread, fun hr' => by simp [hr] at hr', ?_, fun ht => by cases ht⟩
    simp only [StateOk, pendingWaits, ha, hn, hl, List.erase_cons_head, List.countP_append,
      List.countP_singleton, Wait.pending, if_true, true_and]
    omega
  · refine ⟨h.thread, fun hr' => by simp [hr] at hr', ?_, h.timer⟩
    simp [StateOk, pendingWaits, ha, hn, hl, hw]

theorem Inv.onClose {s : Signal} (h : s.Inv) (hr : s.running = true) {k : ℕ} (hk : k ∈ s.live)
    (code : Option CloseStatus) : (s.onClose k code).1.Inv := by
  obtain ⟨-, hl, -, hn, ha, hw⟩ := h.of_live hk
  unfold pendingWaits at hw
  refine ⟨h.thread, fun hr' => by simp [Signal.onClose, hr] at hr', ?_, h.timer⟩
  simp [StateOk, Signal.onClose, pendingWaits, ha, hn, hl, hw]

/-- A pending wait means that the connection is closed and nothing else is pending. -/
theorem Inv.of_pending {s : Signal} (h : s.Inv) (hp : 0 < s.pendingWaits) :
    s.conState = .closed ∧ s.pendingWaits = 1 ∧ s.connects = 0 ∧ s.attempts = [] ∧ s.live = [] := by
  have hs := h.state
  unfold StateOk at hs
  cases hc : s.conState with
  | opening => simp only [hc] at hs; omega
  | opened => simp only [hc] at hs; omega
  | closing => simp only [hc] at hs; omega
  | closed =>
    simp only [hc] at hs
    obtain ⟨h1, h2, h3, h4⟩ := hs
    exact ⟨rfl, by omega, h1, h2, h3⟩

theorem Inv.timeoutReconnect {s : Signal} (h : s.Inv) (hr : s.running = true) {i : ℕ}
    (hi : s.waits[i]? = some .expired) :
    (timeoutReconnect { s with waits := s.waits.eraseIdx i }).Inv := by
  have he := countP_eraseIdx_expired s.waits i hi
  obtain ⟨hc, hw, hn, ha, hl⟩ := h.of_pending (by unfold pendingWaits; omega)
  unfold pendingWaits at hw
  refine ⟨?_, ?_, ?_, fun ht delay hd => ?_⟩
  · simpa [Signal.timeoutReconnect, hc] using h.thread
  · simp [Signal.timeoutReconnect, hc, hr]
  · simp only [StateOk, Signal.timeoutReconnect, hc, if_true, pendingWaits, ha, hl, hn, true_and,
      List.length_nil]
    omega
  · simp only [Signal.timeoutReconnect, hc, if_true] at ht hd
    exact h.timer ht delay (List.mem_of_mem_eraseIdx hd)

theorem Inv.net {s : Signal} (h : s.Inv) (a : NetAction) : (s.net a).1.Inv := by
  unfold Signal.net
  by_cases hr : s.running = true
  swap
  · rw [if_neg hr]; exact h
  rw [if_pos hr]
  have keep : ∀ ws : List Wait, ws.countP Wait.pending ≤ s.waits.countP Wait.pending →
      (∀ delay, .armed delay ∈ ws → .armed delay ∈ s.waits) →
      Inv { s with waits := ws } := fun ws hw hd =>
    ⟨h.thread, fun hr' => by simp [hr] at hr', h.state.of_waits hw,
      fun ht delay hmem => h.timer ht delay (hd delay hmem)⟩
  cases a with
  | connectInternal ok =>
    dsimp only
    split_ifs with hc
    · exact h.connectInternal hr hc ok
    · exact h
  | closeInternal =>
    dsimp only
    split_ifs
    · exact h
    · exact h.closeInternal hr
  | onOpen k =>
    dsimp only
    split_ifs with hk
    · exact h.onOpen hr hk
    · exact h
  | onFail k code =>
    dsimp only
    split_ifs with hk
    · exact h.onFail hr hk code
    · exact h
  | onClose k code =>
    dsimp only
    split_ifs with hk
    · exact h.onClose hr hk code
    · exact h
  | expire i =>
    dsimp only
    split
    next hi =>
      refine keep _ (countP_expire s.waits i hi).le fun delay hd => ?_
      exact (List.mem_or_eq_of_mem_set hd).resolve_right (by simp)
    next => exact h
  | timeoutReconnect i =>
    dsimp only
    split
    next hi => exact h.timeoutReconnect hr hi
    next => exact keep _ (countP_eraseIdx_le s.waits i) fun _ => List.mem_of_mem_eraseIdx
    next => exact h
  | exit =>
    dsimp only
    split_ifs with hd
    · exact ⟨fun h => (by simp at h), fun _ => hd, h.state, h.timer⟩
    · exact h

theorem Inv.step {s : Signal} (h : s.Inv) (a : Signal.Action) : (s.step a).Inv := by
  cases a with
  | setReconnectAttempts n => exact ⟨h.thread, h.idle, h.state, h.timer⟩
  | setReconnectDelay n => exact ⟨h.thread, h.idle, h.state, h.timer⟩
  | setReconnectDelayMax n => exact ⟨h.thread, h.idle, h.state, h.timer⟩
  | openWith id password =>
    simp only [Signal.step]
    split_ifs
    · exact h.openWith id password
    · exact h
  | close =>
    simp only [Signal.step]
    split_ifs
    · exact h.close
    · exact h
  | syncClose =>
    simp only [Signal.step]
    split_ifs
    · exact h.syncClose
    · exact h
  | joined =>
    simp only [Signal.step]
    cases hr : s.running with
    | true => exact h
    | false => exact h.joined hr
  | net a => exact h.net a

theorem inv_run (as : List Action) : (Base.run Signal.step Signal.init as).Inv :=
  Base.run_invariant (P := Signal.Inv) (fun _ a h => h.step a) inv_init as

end Signal

end PeerApi
