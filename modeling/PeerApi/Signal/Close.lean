import PeerApi.Signal.Pending

/-! What a close by the user achieves. `Close` and `SyncClose` act only on an
opened connection: they cancel neither a dispatched attempt, nor one in flight,
nor a reconnect timer. A close is final exactly when none of these is pending,
which every opened and every closing connection guarantees. -/

namespace PeerApi.Signal

/-- The two calls by which the user closes the connection. -/
inductive CloseCall where
  | close
  | syncClose
  deriving DecidableEq, Repr

def CloseCall.action : CloseCall → Action
  | .close => .close
  | .syncClose => .syncClose

/-- A handler of the network thread, or the return of a join. -/
def Action.callback : Action → Bool
  | .net _ => true
  | .joined => true
  | _ => false

/-- Nothing is pending that leads to a connection. -/
def Quiescent (s : Signal) : Prop :=
  s.connects = 0 ∧ s.attempts = [] ∧ s.pendingWaits = 0

instance (s : Signal) : Decidable s.Quiescent := inferInstanceAs (Decidable (_ ∧ _ ∧ _))

def openCommands (s : Signal) : ℕ := s.sent.countP (fun c => c.command = "open")

/-- From `s` to `t` no attempt was started and no `open` command was sent, and
the connection did not end up opened. -/
def Final (s t : Signal) : Prop :=
  t.conState ≠ .opened ∧ t.nextConn = s.nextConn ∧ t.openCommands = s.openCommands

instance (s t : Signal) : Decidable (Final s t) := inferInstanceAs (Decidable (_ ∧ _ ∧ _))

/-! ### A quiescent close -/

/-- The states after a final close: nothing pending, not opened, no `Connect`
waiting in its join, and the history of `s`. -/
structure Ended (s t : Signal) : Prop where
  quiescent : t.Quiescent
  state : t.conState ≠ .opened
  joining : t.joining ≠ some .connect
  nextConn : t.nextConn = s.nextConn
  sent : t.sent = s.sent

theorem Ended.final {s t : Signal} (h : Ended s t) : Final s t :=
  ⟨h.state, h.nextConn, by rw [openCommands, openCommands, h.sent]⟩

theorem pendingWaits_pos {s : Signal} {i : ℕ} {w : Wait} (hi : s.waits[i]? = some w)
    (hw : w.pending = true) : 0 < s.pendingWaits :=
  List.countP_pos_iff.mpr ⟨w, List.mem_of_getElem? hi, hw⟩

theorem Ended.cancelTimer {s t : Signal} (h : Ended s t) : Ended s t.cancelTimer := by
  unfold Signal.cancelTimer
  split_ifs
  · obtain ⟨h1, h2, h3⟩ := h.quiescent
    have hw := countP_cancel_le t.waits
    unfold pendingWaits at h3
    exact ⟨⟨h1, h2, by simp only [pendingWaits]; omega⟩, h.state, h.joining, h.nextConn, h.sent⟩
  · exact h

theorem Ended.net {s t : Signal} (h : Ended s t) (a : NetAction) : Ended s (t.net a).1 := by
  obtain ⟨hn, ha, hw⟩ := h.quiescent
  unfold Signal.net
  by_cases hr : t.running = true
  swap
  · rw [if_neg hr]; exact h
  rw [if_pos hr]
  cases a with
  | connectInternal ok =>
    dsimp only
    rw [if_neg (by omega)]
    exact h
  | closeInternal =>
    dsimp only
    split_ifs
    · exact h
    · have hc : Ended s ({ t with closes := t.closes.tail } : Signal).cancelTimer :=
        Ended.cancelTimer ⟨h.quiescent, h.state, h.joining, h.nextConn, h.sent⟩
      unfold Signal.closeInternal
      dsimp only
      split
      · split_ifs
        · exact hc
        · exact ⟨hc.quiescent, hc.state, hc.joining, hc.nextConn, hc.sent⟩
      · exact hc
  | onOpen k =>
    dsimp only
    rw [if_neg (by simp [ha])]
    exact h
  | onFail k code =>
    dsimp only
    rw [if_neg (by simp [ha])]
    exact h
  | onClose k code =>
    dsimp only
    split_ifs
    · exact ⟨⟨hn, ha, hw⟩, by simp [Signal.onClose], h.joining, h.nextConn, h.sent⟩
    · exact h
  | expire i =>
    dsimp only
    split
    next hi => exact absurd (pendingWaits_pos hi rfl) (by omega)
    next => exact h
  | timeoutReconnect i =>
    dsimp only
    split
    next hi => exact absurd (pendingWaits_pos hi rfl) (by omega)
    next =>
      have he := countP_eraseIdx_le t.waits i
      unfold pendingWaits at hw
      exact ⟨⟨hn, ha, by simp only [pendingWaits]; omega⟩, h.state, h.joining, h.nextConn, h.sent⟩
    next => exact h
  | exit =>
    dsimp only
    split_ifs
    · exact ⟨h.quiescent, h.state, h.joining, h.nextConn, h.sent⟩
    · exact h

theorem Ended.step {s t : Signal} (h : Ended s t) {b : Action} (hb : b.callback = true) :
    Ended s (t.step b) := by
  cases b with
  | net a => exact h.net a
  | joined =>
    simp only [Signal.step]
    split_ifs
    · exact h
    · unfold Signal.joined
      split
      next hj => exact absurd hj h.joining
      next => exact ⟨h.quiescent, h.state, by simp, h.nextConn, h.sent⟩
      next => exact h
  | _ => cases hb

theorem Ended.run {s t : Signal} (h : Ended s t) (bs : List Action)
    (hb : ∀ b ∈ bs, b.callback = true) : Ended s (Base.run Signal.step t bs) := by
  induction bs generalizing t with
  | nil => exact h
  | cons b bs ih =>
    exact ih (h.step (hb b (by simp))) (fun b' hb' => hb b' (by simp [hb']))

/-- A close in a quiescent state leaves the connection ended at once. -/
theorem Quiescent.ended {s : Signal} (h : s.Quiescent) (hj : s.joining = none) (c : CloseCall) :
    Ended s (s.step c.action) := by
  have hc : Ended s s.close := by
    unfold Signal.close
    split_ifs with ho
    · exact ⟨h, by simp, by simp [hj], rfl, rfl⟩
    · exact ⟨h, by simpa [opened] using ho, by simp [hj], rfl, rfl⟩
  cases c with
  | close => simpa only [CloseCall.action, Signal.step, hj, if_true] using hc
  | syncClose =>
    simp only [CloseCall.action, Signal.step, hj, if_true, Signal.syncClose]
    split_ifs with ho ht
    · exact ⟨hc.quiescent, hc.state, by simp, hc.nextConn, hc.sent⟩
    · exact ⟨hc.quiescent, hc.state, by simp, hc.nextConn, hc.sent⟩
    · exact ⟨h, by simpa [opened] using ho, by simp [hj], rfl, rfl⟩

/-- Whoever closes an opened or closing connection finds it quiescent. -/
theorem Inv.quiescent {s : Signal} (h : s.Inv) (ho : s.conState = .opened ∨ s.conState = .closing) :
    s.Quiescent := by
  have hs := h.state
  rcases ho with ho | ho <;> simp only [StateOk, ho] at hs <;> exact ⟨hs.1, hs.2.1, hs.2.2.1⟩

/-! ### A close with work pending -/

theorem step_close_eq {s : Signal} (hj : s.joining = none) (ho : s.conState ≠ .opened)
    (c : CloseCall) : s.step c.action = s := by
  cases c <;> simp [CloseCall.action, Signal.step, hj, Signal.close, Signal.syncClose, opened, ho]

/-- The loop runs as long as it has work. -/
theorem Inv.running {s : Signal} (h : s.Inv) (hd : s.drained = false) : s.running = true := by
  cases hr : s.running with
  | true => rfl
  | false => rw [h.idle hr] at hd; cases hd

/-- A dispatched `ConnectInternal` starts its attempt after the close. -/
theorem Inv.attempt_of_connects {s : Signal} (h : s.Inv) (hc : 0 < s.connects) :
    (s.step (.net (.connectInternal true))).nextConn = s.nextConn + 1 := by
  have hr : s.running = true := h.running (by simp [drained, hc.ne'])
  simp [Signal.step, Signal.net, hr, hc, Signal.connectInternal]

/-- An expired timer dispatches a new attempt, which then starts. -/
theorem Inv.attempt_of_expired {s : Signal} (h : s.Inv) {i : ℕ}
    (hi : s.waits[i]? = some .expired) :
    (Base.run Signal.step s [.net (.timeoutReconnect i), .net (.connectInternal true)]).nextConn =
      s.nextConn + 1 := by
  obtain ⟨hc, -, hn, -, -⟩ := h.of_pending (pendingWaits_pos hi rfl)
  have hw : s.waits ≠ [] := fun hw => by simp [hw] at hi
  have hr : s.running = true := h.running (by simp [drained, hw])
  have ht : s.step (.net (.timeoutReconnect i)) =
      Signal.timeoutReconnect { s with waits := s.waits.eraseIdx i } := by
    simp [Signal.step, Signal.net, hr, hi]
  have hd : 0 < (s.step (.net (.timeoutReconnect i))).connects := by
    rw [ht]; simp [Signal.timeoutReconnect, hc]
  have hs := (h.step (.net (.timeoutReconnect i))).attempt_of_connects hd
  rw [Base.run_cons, Base.run_cons, Base.run_nil, hs, ht]
  simp [Signal.timeoutReconnect, hc]

theorem Inv.exists_not_final {s : Signal} (h : s.Inv) (hq : ¬ s.Quiescent)
    (hj : s.joining = none) (c : CloseCall) :
    ∃ bs : List Action, (∀ b ∈ bs, b.callback = true) ∧
      ¬ Final s (Base.run Signal.step (s.step c.action) bs) := by
  have ho : s.conState ≠ .opened := fun ho => hq (h.quiescent (Or.inl ho))
  rw [step_close_eq hj ho]
  by_cases hn : 0 < s.connects
  · refine ⟨[.net (.connectInternal true)], by simp [Action.callback], fun hf => ?_⟩
    have := h.attempt_of_connects hn
    have := hf.2.1
    simp only [Base.run_cons, Base.run_nil] at this
    omega
  by_cases ha : s.attempts = []
  swap
  · obtain ⟨k, hk⟩ := List.exists_mem_of_ne_nil _ ha
    refine ⟨[.net (.onOpen k)], by simp [Action.callback], fun hf => hf.1 ?_⟩
    have hr : s.running = true := h.running (by simp [drained, ha])
    simp [Signal.step, Signal.net, hr, hk, Signal.onOpen, sendOpenCommand, sendCommand, opened]
  -- what is left is a wait: it expires, unless it has, and its handler runs
  have hw : 0 < s.pendingWaits := by
    by_contra hw
    exact hq ⟨by omega, ha, by omega⟩
  obtain ⟨w, hmem, hp⟩ := List.countP_pos_iff.mp hw
  obtain ⟨i, hi⟩ := List.getElem?_of_mem hmem
  cases w with
  | expired =>
    refine ⟨[.net (.timeoutReconnect i), .net (.connectInternal true)],
      by simp [Action.callback], fun hf => ?_⟩
    have := h.attempt_of_expired hi
    have := hf.2.1
    omega
  | armed delay =>
    have hne : s.waits ≠ [] := List.ne_nil_of_mem hmem
    have hr : s.running = true := h.running (by simp [drained, hne])
    have he : s.step (.net (.expire i)) = { s with waits := s.waits.set i .expired } := by
      simp [Signal.step, Signal.net, hr, hi]
    have hlt : i < s.waits.length := (List.getElem?_eq_some_iff.mp hi).1
    refine ⟨[.net (.expire i), .net (.timeoutReconnect i), .net (.connectInternal true)],
      by simp [Action.callback], fun hf => ?_⟩
    have hs := (h.step (.net (.expire i))).attempt_of_expired (i := i) (by rw [he]; simp [hlt])
    have := hf.2.1
    rw [Base.run_cons, hs, he] at this
    simp at this
  | aborted => cases hp

/-- In every reachable state, the close is final for every later order of
callbacks exactly when nothing is pending that leads to a connection. -/
theorem close_final_iff (as : List Action) (c : CloseCall)
    (hj : (Base.run Signal.step init as).joining = none) :
    (∀ bs : List Action, (∀ b ∈ bs, b.callback = true) →
      Final (Base.run Signal.step init as)
        (Base.run Signal.step (Signal.step (Base.run Signal.step init as) c.action) bs)) ↔
      (Base.run Signal.step init as).Quiescent := by
  constructor
  · intro hf
    by_contra hq
    obtain ⟨bs, hb, hn⟩ := (inv_run as).exists_not_final hq hj c
    exact hn (hf bs hb)
  · intro hq bs hb
    exact ((hq.ended hj c).run bs hb).final

/-- Closed once opened, every order of callbacks is final. -/
theorem close_final_opened :
    (Base.run Signal.step init
      [.openWith "u" "p", .net (.connectInternal true), .net (.onOpen 0)]).conState = .opened ∧
    ∀ bs : List Action, (∀ b ∈ bs, b.callback = true) →
      Final (Base.run Signal.step init
          [.openWith "u" "p", .net (.connectInternal true), .net (.onOpen 0)])
        (Base.run Signal.step (Signal.step (Base.run Signal.step init
          [.openWith "u" "p", .net (.connectInternal true), .net (.onOpen 0)]) .syncClose) bs) :=
  ⟨by decide, (close_final_iff
    [.openWith "u" "p", .net (.connectInternal true), .net (.onOpen 0)] .syncClose
    (by decide)).mpr (by decide)⟩

/-- The attempt is in flight when the user closes; it then succeeds. -/
theorem close_while_opening_not_final :
    ¬ Final (Base.run Signal.step init [.openWith "u" "p", .net (.connectInternal true)])
      (Base.run Signal.step (Signal.step (Base.run Signal.step init
        [.openWith "u" "p", .net (.connectInternal true)]) .syncClose) [.net (.onOpen 0)]) := by
  decide

end PeerApi.Signal
