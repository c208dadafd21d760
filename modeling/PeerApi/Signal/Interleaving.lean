import PeerApi.Signal.Pending

/-! The signal connection with the calls of the user thread taken apart. `Open`,
`Close` and `SyncClose` read and write the shared state one statement at a time,
and any handler of the network thread may run in between; `SendCommand` tests the
state and uses the handle in two steps of its own thread. Handlers dispatched to
the run loop run in the order they were dispatched, and stay there when the loop
has ended, to run in the next one.

A close may then be dispatched after the connection it was meant for is gone, and
even after the run loop has ended. It finds no handle, because the handlers that
end a connection reset it, and the next attempt is dispatched behind it. -/

namespace PeerApi

/-- The handlers that `dispatch` puts into the run loop. -/
inductive Handler where
  | connectInternal
  | closeInternal
  deriving DecidableEq, Repr

/-- How far the user thread is in its call. -/
inductive Call where
  | idle
  /-- `Connect` has found a reconnect timer. -/
  | timer
  /-- `Connect` has cancelled it, and resets the pointer next. -/
  | cancelled
  /-- `Connect` tests the thread and the state next. -/
  | connecting
  | joining (j : Join)
  /-- `Close` or `SyncClose` has found the connection open, with this handle. -/
  | opened (sync : Bool) (target : Option ℕ)
  /-- It has set the state, and dispatches `CloseInternal` next. -/
  | closing (sync : Bool) (target : Option ℕ)
  deriving DecidableEq, Repr

/-- The handle that a close which is not dispatched yet is meant for. -/
def Call.request : Call → List (Option ℕ)
  | .opened _ target => [target]
  | .closing _ target => [target]
  | _ => []

structure Racing where
  signal : Signal
  call : Call
  /-- The handlers that wait for the run loop, in order. -/
  dispatched : List Handler
  /-- `SendCommand` has found the connection open. -/
  sending : Bool
  /-- The handles given to `client_.send`, each with the connections live then. -/
  sends : List (Option ℕ × List ℕ)

namespace Racing

def init : Racing := ⟨.init, .idle, [], false, []⟩

/-- The next statement of the user thread's call. Nothing runs beside the start of
a run loop, which is one step here. -/
def advance (r : Racing) : Racing :=
  match r.call with
  | .idle => r
  | .timer =>
    { r with
      signal := { r.signal with
        waits := if r.signal.reconnTimer then r.signal.waits.map Wait.cancel else r.signal.waits }
      call := .cancelled }
  | .cancelled => { r with signal := r.signal.cancelTimer, call := .connecting }
  | .connecting =>
    if r.signal.thread then
      if r.signal.conState = .closing ∨ r.signal.conState = .closed then
        { r with call := .joining .connect }
      else { r with call := .idle }
    else
      { r with
        signal := r.signal.startLoop
        dispatched := r.dispatched ++ [.connectInternal]
        call := .idle }
  | .joining j =>
    if r.signal.running then r
    else
      match j with
      | .connect =>
        { r with
          signal := { r.signal with thread := false }.startLoop
          dispatched := r.dispatched ++ [.connectInternal]
          call := .idle }
      | .syncClose => { r with signal := { r.signal with thread := false }, call := .idle }
  | .opened sync target =>
    { r with signal := { r.signal with conState := .closing }, call := .closing sync target }
  | .closing sync target =>
    { r with
      signal := { r.signal with closes := r.signal.closes ++ [target] }
      dispatched := r.dispatched ++ [.closeInternal]
      call := if sync && r.signal.thread then .joining .syncClose else .idle }

/-- A handler of the network thread. A dispatched one runs when it is the first,
and the loop ends only when none is left; what a handler dispatches goes to the
end. -/
def net (r : Racing) (a : Signal.NetAction) : Racing :=
  match a with
  | .connectInternal ok =>
    if r.signal.running = true ∧ r.dispatched.head? = some .connectInternal then
      { r with signal := r.signal.connectInternal ok, dispatched := r.dispatched.tail }
    else r
  | .closeInternal =>
    if r.signal.running = true ∧ r.dispatched.head? = some .closeInternal then
      { r with signal := r.signal.closeInternal, dispatched := r.dispatched.tail }
    else r
  | a =>
    let s := (r.signal.net a).1
    { r with
      signal := s
      dispatched := r.dispatched ++
        List.replicate (s.connects - r.signal.connects) .connectInternal }

inductive Action where
  | setReconnectAttempts (attempts : ℕ)
  | setReconnectDelay (millis : ℕ)
  | setReconnectDelayMax (millis : ℕ)
  | openWith (id password : String)
  /-- `Close`, or `SyncClose`. -/
  | close (sync : Bool)
  | advance
  | testOpened
  | send
  | net (a : Signal.NetAction)
  deriving DecidableEq, Repr

/-- The user thread makes its next call when it is done with the last. -/
def step (r : Racing) : Action → Racing
  | .setReconnectAttempts attempts => { r with signal := r.signal.setReconnectAttempts attempts }
  | .setReconnectDelay millis => { r with signal := r.signal.setReconnectDelay millis }
  | .setReconnectDelayMax millis => { r with signal := r.signal.setReconnectDelayMax millis }
  | .openWith id password =>
    if r.call = .idle then
      { r with
        signal := { r.signal with userId := id, userPassword := password }
        call := if r.signal.reconnTimer then .timer else .connecting }
    else r
  | .close sync =>
    if r.call = .idle ∧ r.signal.opened = true then
      { r with call := .opened sync r.signal.conHdl }
    else r
  | .advance => r.advance
  | .testOpened => { r with sending := r.signal.opened }
  | .send =>
    if r.sending then
      { r with sends := r.sends ++ [(r.signal.conHdl, r.signal.live)], sending := false }
    else r
  | .net a => r.net a

/-! ### The invariant -/

/-- The closes that have not run yet, each with the handle it is meant for. -/
def requests (r : Racing) : List (Option ℕ) := r.signal.closes ++ r.call.request

/-- The handle refers to the one live connection, and so does every close that has
not run yet. -/
def Held (r : Racing) (k : ℕ) : Prop :=
  r.signal.live = [k] ∧ r.signal.conHdl = some k ∧ ∀ t ∈ r.requests, t = some k

/-- There is no connection and no handle. -/
def Gone (r : Racing) : Prop := r.signal.live = [] ∧ r.signal.conHdl = none

/-- Neither an attempt nor a timer is pending. -/
def Still (r : Racing) : Prop :=
  r.signal.connects = 0 ∧ r.signal.attempts = [] ∧ r.signal.pendingWaits = 0

def StateOk (r : Racing) : Prop :=
  match r.signal.conState with
  | .opening => r.Gone ∧ r.signal.pendingWaits = 0 ∧
      r.signal.connects + r.signal.attempts.length ≤ 1 ∧
      (r.signal.attempts = [] ∨ r.signal.closes = []) ∧ r.call.request = []
  | .opened => r.Still ∧ ∃ k, r.Held k
  | .closing => r.Still ∧ (r.Gone ∨ ∃ k, r.Held k)
  | .closed => r.Gone ∧ r.signal.connects = 0 ∧ r.signal.attempts = [] ∧
      r.signal.pendingWaits ≤ 1 ∧ (0 < r.signal.pendingWaits → r.requests = [])

structure Inv (r : Racing) : Prop where
  thread : r.signal.running = true → r.signal.thread = true
  idle : r.signal.running = false →
    r.signal.connects = 0 ∧ r.signal.attempts = [] ∧ r.signal.live = [] ∧ r.signal.waits = []
  order : r.dispatched = List.replicate r.signal.closes.length .closeInternal ++
    List.replicate r.signal.connects .connectInternal
  state : r.StateOk
  closed : ∀ p ∈ r.signal.closed, p.1 = some p.2
  sends : ∀ p ∈ r.sends, ∀ k, p.1 = some k → k ∈ p.2

theorem inv_init : init.Inv := by
  refine ⟨?_, ?_, rfl, ?_, ?_, ?_⟩ <;>
    simp [init, Signal.init, StateOk, Gone, Signal.pendingWaits]

/-- The state is still accounted for when only waits are gone. -/
theorem StateOk.of_le {r r' : Racing} (h : r.StateOk)
    (hc : r'.signal.conState = r.signal.conState) (hl : r'.signal.live = r.signal.live)
    (hh : r'.signal.conHdl = r.signal.conHdl) (hn : r'.signal.connects = r.signal.connects)
    (ha : r'.signal.attempts = r.signal.attempts) (hs : r'.signal.closes = r.signal.closes)
    (hq : r'.call.request = r.call.request)
    (hw : r'.signal.pendingWaits ≤ r.signal.pendingWaits) : r'.StateOk := by
  have hg : r.Gone → r'.Gone := fun g => ⟨hl.trans g.1, hh.trans g.2⟩
  have hr : r'.requests = r.requests := by rw [requests, requests, hs, hq]
  have hd : (∃ k, r.Held k) → ∃ k, r'.Held k := by
    rintro ⟨k, h1, h2, h3⟩
    exact ⟨k, hl.trans h1, hh.trans h2, by rw [hr]; exact h3⟩
  have ht : r.Still → r'.Still := fun t => ⟨hn.trans t.1, ha.trans t.2.1, by have := t.2.2; omega⟩
  unfold StateOk at h ⊢
  rw [hc, hn, ha, hs, hq, hr]
  cases hcs : r.signal.conState with
  | opening =>
    simp only [hcs] at h ⊢
    exact ⟨hg h.1, by omega, h.2.2⟩
  | opened =>
    simp only [hcs] at h ⊢
    exact ⟨ht h.1, hd h.2⟩
  | closing =>
    simp only [hcs] at h ⊢
    exact ⟨ht h.1, h.2.imp hg hd⟩
  | closed =>
    simp only [hcs] at h ⊢
    obtain ⟨g, h1, h2, h3, h4⟩ := h
    exact ⟨hg g, h1, h2, by omega, fun hp => h4 (by omega)⟩

/-! ### The user thread -/

/-- Cancelling waits of the timer changes nothing else. -/
theorem Inv.cancel {r : Racing} (h : r.Inv) (timer : Bool) (c : Call)
    (hc : c.request = r.call.request) :
    Inv { r with
      signal := { r.signal with waits := r.signal.waits.map Wait.cancel, reconnTimer := timer }
      call := c } := by
  refine ⟨h.thread, fun hr => ?_, h.order, ?_, h.closed, h.sends⟩
  · obtain ⟨h1, h2, h3, h4⟩ := h.idle hr
    exact ⟨h1, h2, h3, by simp [h4]⟩
  · exact h.state.of_le rfl rfl rfl rfl rfl rfl hc (Signal.countP_cancel_le r.signal.waits)

theorem Inv.call {r : Racing} (h : r.Inv) (c : Call) (hc : c.request = r.call.request) :
    Inv { r with call := c } :=
  ⟨h.thread, h.idle, h.order, h.state.of_le rfl rfl rfl rfl rfl rfl hc le_rfl, h.closed, h.sends⟩

/-- Once the loop has ended there is no connection: an opened one would be live. -/
theorem Inv.gone {r : Racing} (h : r.Inv) (hr : r.signal.running = false) : r.Gone := by
  obtain ⟨-, -, hl, -⟩ := h.idle hr
  have hs := h.state
  have hh : ¬ ∃ k, r.Held k := by
    rintro ⟨k, hk, -⟩
    simp [hl] at hk
  unfold StateOk at hs
  cases hcs : r.signal.conState with
  | opening => simp only [hcs] at hs; exact hs.1
  | opened => simp only [hcs] at hs; exact absurd hs.2 hh
  | closing => simp only [hcs] at hs; exact hs.2.resolve_right hh
  | closed => simp only [hcs] at hs; exact hs.1

/-- A new loop gets its attempt behind the closes that the old one has left. -/
theorem Inv.startLoop {r : Racing} (h : r.Inv) (hr : r.signal.running = false) (thread : Bool) :
    Inv { r with
      signal := Signal.startLoop { r.signal with thread := thread }
      dispatched := r.dispatched ++ [.connectInternal]
      call := .idle } := by
  obtain ⟨h1, h2, h3, h4⟩ := h.idle hr
  obtain ⟨-, hh⟩ := h.gone hr
  refine ⟨fun _ => rfl, fun hr' => by simp [Signal.startLoop] at hr', ?_, ?_, h.closed, h.sends⟩
  · rw [h.order]
    simp [Signal.startLoop, h1]
  · simp [StateOk, Gone, Signal.startLoop, Signal.pendingWaits, Call.request, h1, h2, h3, h4, hh]

/-- A close has been requested, so no attempt and no timer is pending. -/
theorem Inv.of_request {r : Racing} (h : r.Inv) (hq : r.call.request ≠ []) :
    r.Still ∧ (r.Gone ∨ ∃ k, r.Held k) := by
  have hs := h.state
  unfold StateOk at hs
  cases hcs : r.signal.conState with
  | opening => simp only [hcs] at hs; exact absurd hs.2.2.2.2 hq
  | opened => simp only [hcs] at hs; exact ⟨hs.1, Or.inr hs.2⟩
  | closing => simp only [hcs] at hs; exact hs
  | closed =>
    simp only [hcs] at hs
    obtain ⟨g, h1, h2, h3, h4⟩ := hs
    have hw : r.signal.pendingWaits = 0 := by
      by_contra hw
      have := h4 (by omega)
      simp only [requests, List.append_eq_nil_iff] at this
      exact hq this.2
    exact ⟨⟨h1, h2, hw⟩, Or.inl g⟩

/-- Setting `con_closing`: the connection may have gone since the test. -/
theorem Inv.setClosing {r : Racing} (h : r.Inv) {sync : Bool} {target : Option ℕ}
    (hc : r.call = .opened sync target) :
    Inv { r with
      signal := { r.signal with conState := .closing }, call := .closing sync target } := by
  obtain ⟨hs, hg⟩ := h.of_request (by simp [hc, Call.request])
  refine ⟨h.thread, h.idle, h.order, ⟨hs, hg.imp id ?_⟩, h.closed, h.sends⟩
  rintro ⟨k, h1, h2, h3⟩
  refine ⟨k, h1, h2, fun t ht => h3 t ?_⟩
  simpa [requests, hc, Call.request] using ht

/-- The dispatched close is meant for the connection it was requested for. -/
theorem Inv.dispatchClose {r : Racing} (h : r.Inv) {sync : Bool} {target : Option ℕ}
    (hc : r.call = .closing sync target) (c : Call) (hq : c.request = []) :
    Inv { r with
      signal := { r.signal with closes := r.signal.closes ++ [target] }
      dispatched := r.dispatched ++ [.closeInternal]
      call := c } := by
  obtain ⟨⟨h1, h2, h3⟩, -⟩ := h.of_request (by simp [hc, Call.request])
  have hh : (∃ k, r.Held k) → ∃ k, Held { r with
      signal := { r.signal with closes := r.signal.closes ++ [target] }
      dispatched := r.dispatched ++ [.closeInternal]
      call := c } k := by
    rintro ⟨k, hl, hk, ht⟩
    refine ⟨k, hl, hk, fun t hm => ht t ?_⟩
    have hm' : t ∈ (r.signal.closes ++ [target]) ++ c.request := hm
    rw [hq, List.append_nil] at hm'
    simpa only [requests, hc, Call.request] using hm'
  refine ⟨h.thread, h.idle, ?_, ?_, h.closed, h.sends⟩
  · rw [h.order, h1]
    simp [List.replicate_succ']
  · have hs := h.state
    unfold StateOk at hs ⊢
    cases hcs : r.signal.conState with
    | opening =>
      simp only [hcs, hc, Call.request] at hs
      exact absurd hs.2.2.2.2 (by simp)
    | opened => simp only [hcs] at hs ⊢; exact ⟨hs.1, hh hs.2⟩
    | closing => simp only [hcs] at hs ⊢; exact ⟨hs.1, hs.2.imp id hh⟩
    | closed =>
      simp only [hcs] at hs ⊢
      exact ⟨hs.1, h1, h2, hs.2.2.2.1, fun hp => absurd hp (by
        have h3' : r.signal.waits.countP Wait.pending = 0 := h3
        simp [Signal.pendingWaits, h3'])⟩

theorem Inv.joined {r : Racing} (h : r.Inv) {j : Join} (hc : r.call = .joining j) :
    r.advance.Inv := by
  unfold Racing.advance
  rw [hc]
  dsimp only
  split_ifs with hr
  · exact h
  · cases j with
    | connect => exact h.startLoop (by simpa using hr) false
    | syncClose =>
      refine ⟨fun hr' => absurd hr' hr, h.idle, h.order, ?_, h.closed, h.sends⟩
      exact h.state.of_le rfl rfl rfl rfl rfl rfl (by simp [hc, Call.request]) le_rfl

theorem Inv.connecting {r : Racing} (h : r.Inv) (hc : r.call = .connecting) : r.advance.Inv := by
  unfold Racing.advance
  rw [hc]
  dsimp only
  split_ifs with ht hs
  · exact h.call _ (by simp [hc, Call.request])
  · exact h.call _ (by simp [hc, Call.request])
  · have hr : r.signal.running = false := by
      cases hr : r.signal.running with
      | false => rfl
      | true => exact absurd (h.thread hr) ht
    exact h.startLoop hr r.signal.thread

theorem Inv.advance {r : Racing} (h : r.Inv) : r.advance.Inv := by
  cases hc : r.call with
  | idle => simpa only [Racing.advance, hc] using h
  | timer =>
    simp only [Racing.advance, hc]
    split_ifs
    · exact h.cancel r.signal.reconnTimer _ (by simp [hc, Call.request])
    · exact h.call _ (by simp [hc, Call.request])
  | cancelled =>
    simp only [Racing.advance, hc, Signal.cancelTimer]
    split_ifs
    · exact h.cancel false _ (by simp [hc, Call.request])
    · exact h.call _ (by simp [hc, Call.request])
  | connecting => exact h.connecting hc
  | joining j => exact h.joined hc
  | opened sync target =>
    simp only [Racing.advance, hc]
    exact h.setClosing hc
  | closing sync target =>
    simp only [Racing.advance, hc]
    refine h.dispatchClose hc _ ?_
    split_ifs <;> rfl

/-! ### The network thread -/

/-- The first of the dispatched handlers is an attempt: no close is left. -/
theorem Inv.connects_pos {r : Racing} (h : r.Inv)
    (hd : r.dispatched.head? = some .connectInternal) :
    0 < r.signal.connects ∧ r.signal.closes = [] ∧
      r.dispatched.tail = List.replicate (r.signal.connects - 1) .connectInternal := by
  have ho := h.order
  cases hcl : r.signal.closes with
  | cons t ts => simp [ho, hcl, List.replicate_succ] at hd
  | nil =>
    rw [hcl, List.length_nil, List.replicate_zero, List.nil_append] at ho
    rw [ho] at hd ⊢
    cases hn : r.signal.connects with
    | zero => simp [hn] at hd
    | succ n => simp [List.replicate_succ]

theorem Inv.opening_of_connects {r : Racing} (h : r.Inv) (hn : 0 < r.signal.connects) :
    r.signal.conState = .opening := by
  have hs := h.state
  unfold StateOk at hs
  cases hcs : r.signal.conState with
  | opening => rfl
  | opened => simp only [hcs, Still] at hs; omega
  | closing => simp only [hcs, Still] at hs; omega
  | closed => simp only [hcs] at hs; omega

theorem Inv.connectInternal {r : Racing} (h : r.Inv) (hr : r.signal.running = true)
    (hd : r.dispatched.head? = some .connectInternal) (ok : Bool) :
    Inv { r with
      signal := r.signal.connectInternal ok, dispatched := r.dispatched.tail } := by
  obtain ⟨hn, hc, ht⟩ := h.connects_pos hd
  have hs := h.state
  simp only [StateOk, h.opening_of_connects hn] at hs
  obtain ⟨⟨hl, hh⟩, hw, hle, -, hq⟩ := hs
  have hw' : r.signal.waits.countP Wait.pending = 0 := hw
  cases ok with
  | false =>
    refine ⟨h.thread, fun hr' => ?_, ?_, ?_, h.closed, h.sends⟩
    · simp [Signal.connectInternal, hr] at hr'
    · simp [Signal.connectInternal, hc, ht]
    · simp only [StateOk, Signal.connectInternal, h.opening_of_connects hn, Bool.false_eq_true,
        if_false]
      exact ⟨⟨hl, hh⟩, hw', by omega, Or.inr hc, hq⟩
  | true =>
    refine ⟨h.thread, fun hr' => ?_, ?_, ?_, h.closed, h.sends⟩
    · simp [Signal.connectInternal, hr] at hr'
    · simp [Signal.connectInternal, hc, ht]
    · simp only [StateOk, Signal.connectInternal, h.opening_of_connects hn, if_true,
        List.length_cons]
      exact ⟨⟨hl, hh⟩, hw', by omega, Or.inr hc, hq⟩

theorem Inv.closes_pos {r : Racing} (h : r.Inv)
    (hd : r.dispatched.head? = some .closeInternal) :
    ∃ t ts, r.signal.closes = t :: ts ∧
      r.dispatched.tail = List.replicate ts.length .closeInternal ++
        List.replicate r.signal.connects .connectInternal := by
  have ho := h.order
  cases hcl : r.signal.closes with
  | cons t ts => exact ⟨t, ts, rfl, by simp [ho, hcl, List.replicate_succ]⟩
  | nil =>
    rw [hcl, List.length_nil, List.replicate_zero, List.nil_append] at ho
    cases hn : r.signal.connects with
    | zero => simp [ho, hn] at hd
    | succ n => simp [ho, hn, List.replicate_succ] at hd

/-- A close that runs has lost its connection, or closes the one it is meant for. -/
theorem Inv.of_closes {r : Racing} (h : r.Inv) {t : Option ℕ} (ht : t ∈ r.signal.closes) :
    r.signal.conHdl = none ∨ ∃ k, r.signal.conHdl = some k ∧ t = some k := by
  have hh : (∃ k, r.Held k) → ∃ k, r.signal.conHdl = some k ∧ t = some k := by
    rintro ⟨k, -, hk, hr⟩
    exact ⟨k, hk, hr t (by simp [requests, ht])⟩
  have hs := h.state
  unfold StateOk at hs
  cases hcs : r.signal.conState with
  | opening => simp only [hcs] at hs; exact Or.inl hs.1.2
  | opened => simp only [hcs] at hs; exact Or.inr (hh hs.2)
  | closing => simp only [hcs] at hs; exact hs.2.imp And.right hh
  | closed => simp only [hcs] at hs; exact Or.inl hs.1.2

/-- Fewer closes are pending, and nothing else has changed. -/
theorem StateOk.tail {r : Racing} (h : r.StateOk) {t : Option ℕ} {ts : List (Option ℕ)}
    (hc : r.signal.closes = t :: ts) :
    StateOk { r with
      signal := { r.signal with closes := ts }, dispatched := r.dispatched.tail } := by
  have hh : (∃ k, r.Held k) → ∃ k, Held { r with
      signal := { r.signal with closes := ts }, dispatched := r.dispatched.tail } k := by
    rintro ⟨k, h1, h2, h3⟩
    refine ⟨k, h1, h2, fun t' ht' => h3 t' ?_⟩
    simp only [requests, hc, List.cons_append, List.mem_cons]
    exact Or.inr ht'
  unfold StateOk at h ⊢
  cases hcs : r.signal.conState with
  | opening =>
    simp only [hcs, hc] at h ⊢
    obtain ⟨g, h1, h2, h3, h4⟩ := h
    exact ⟨g, h1, h2, Or.inl (h3.resolve_right (by simp)), h4⟩
  | opened => simp only [hcs] at h ⊢; exact ⟨h.1, hh h.2⟩
  | closing => simp only [hcs] at h ⊢; exact ⟨h.1, h.2.imp id hh⟩
  | closed =>
    simp only [hcs] at h ⊢
    obtain ⟨g, h1, h2, h3, h4⟩ := h
    refine ⟨g, h1, h2, h3, fun hp => absurd (h4 hp) ?_⟩
    simp [requests, hc]

theorem Inv.closeInternal {r : Racing} (h : r.Inv) (hr : r.signal.running = true)
    (hd : r.dispatched.head? = some .closeInternal) :
    Inv { r with signal := r.signal.closeInternal, dispatched := r.dispatched.tail } := by
  obtain ⟨t, ts, hc, ht⟩ := h.closes_pos hd
  have hb : Inv { r with
      signal := { r.signal with closes := ts }, dispatched := r.dispatched.tail } :=
    ⟨h.thread, fun hr' => by simp [hr] at hr', ht, h.state.tail hc, h.closed, h.sends⟩
  have hcancel : Inv { r with
      signal := ({ r.signal with closes := ts } : Signal).cancelTimer
      dispatched := r.dispatched.tail } := by
    unfold Signal.cancelTimer
    split_ifs
    · exact hb.cancel false _ rfl
    · exact hb
  have hhdl : ({ r.signal with closes := ts } : Signal).cancelTimer.conHdl = r.signal.conHdl := by
    unfold Signal.cancelTimer
    split_ifs <;> rfl
  simp only [Signal.closeInternal, hc, List.headD_cons, List.tail_cons]
  generalize ({ r.signal with closes := ts } : Signal).cancelTimer = s at hcancel hhdl
  split
  next k hk =>
    split_ifs
    · exact hcancel
    · refine ⟨hcancel.thread, hcancel.idle, hcancel.order, hcancel.state, fun p hp => ?_,
        hcancel.sends⟩
      rcases List.mem_append.mp hp with hp | hp
      · exact hcancel.closed p hp
      · rw [List.mem_singleton.mp hp]
        rw [hhdl] at hk
        rcases h.of_closes (t := t) (by simp [hc]) with hk' | ⟨k', hk', ht'⟩
        · rw [hk] at hk'; cases hk'
        · rw [ht', ← hk', hk]
  next => exact hcancel

/-- An attempt is reported on while opening, and no close is pending then. -/
theorem Inv.of_attempt {r : Racing} (h : r.Inv) {k : ℕ} (hk : k ∈ r.signal.attempts) :
    r.Gone ∧ r.signal.attempts = [k] ∧ r.signal.connects = 0 ∧ r.signal.pendingWaits = 0 ∧
      r.requests = [] := by
  have hs := h.state
  unfold StateOk at hs
  cases hcs : r.signal.conState with
  | opening =>
    simp only [hcs] at hs
    obtain ⟨hg, hw, hn, hc, hq⟩ := hs
    obtain ⟨x, hx⟩ : ∃ x, r.signal.attempts = [x] := by
      apply List.length_eq_one_iff.mp
      have := List.length_pos_of_mem hk
      omega
    rw [hx] at hk hn hc
    obtain rfl := List.mem_singleton.mp hk
    refine ⟨hg, hx, by simpa using hn, hw, ?_⟩
    rw [requests, hq, hc.resolve_left (by simp)]
    rfl
  | opened => simp only [hcs, Still] at hs; simp [hs.1.2.1] at hk
  | closing => simp only [hcs, Still] at hs; simp [hs.1.2.1] at hk
  | closed => simp only [hcs] at hs; simp [hs.2.2.1] at hk

theorem Inv.onOpen {r : Racing} (h : r.Inv) (hr : r.signal.running = true) {k : ℕ}
    (hk : k ∈ r.signal.attempts) : Inv { r with signal := r.signal.onOpen k } := by
  obtain ⟨⟨hl, -⟩, ha, hn, hw, hq⟩ := h.of_attempt hk
  simp only [Signal.onOpen, Signal.sendOpenCommand, Signal.sendCommand, Signal.opened, decide_true,
    if_true, String.reduceEq, if_false]
  refine ⟨h.thread, fun hr' => by simp [hr] at hr', h.order, ?_, h.closed, h.sends⟩
  refine ⟨⟨hn, by simp [ha], hw⟩, k, by simp [hl], rfl, fun t ht => ?_⟩
  have ht' : t ∈ r.requests := ht
  simp [hq] at ht'

theorem Inv.onFail {r : Racing} (h : r.Inv) (hr : r.signal.running = true) {k : ℕ}
    (hk : k ∈ r.signal.attempts) (code : Option CloseStatus) :
    Inv { r with signal := (r.signal.onFail k code).1 } := by
  obtain ⟨⟨hl, -⟩, ha, hn, hw, hq⟩ := h.of_attempt hk
  have hw' : r.signal.waits.countP Wait.pending = 0 := hw
  have hle := Signal.countP_cancel_le r.signal.waits
  unfold Signal.onFail
  dsimp only
  split_ifs
  · refine ⟨h.thread, fun hr' => by simp [hr] at hr', h.order, ?_, h.closed, h.sends⟩
    refine ⟨⟨hl, rfl⟩, hn, by simp [ha], ?_, fun _ => hq⟩
    simp only [Signal.pendingWaits, List.countP_append, List.countP_singleton, Wait.pending,
      if_true]
    omega
  · refine ⟨h.thread, fun hr' => by simp [hr] at hr', h.order, ?_, h.closed, h.sends⟩
    exact ⟨⟨hl, rfl⟩, hn, by simp [ha], hw.le.trans (Nat.zero_le 1), fun _ => hq⟩

/-- A live connection is the one of the handle. -/
theorem Inv.of_live {r : Racing} (h : r.Inv) {k : ℕ} (hk : k ∈ r.signal.live) :
    r.Still ∧ r.Held k := by
  have hh : (∃ k, r.Held k) → r.Held k := by
    rintro ⟨k', h1, h2, h3⟩
    rw [h1] at hk
    obtain rfl := List.mem_singleton.mp hk
    exact ⟨h1, h2, h3⟩
  have hg : ¬ r.Gone := fun g => by simp [g.1] at hk
  have hs := h.state
  unfold StateOk at hs
  cases hcs : r.signal.conState with
  | opening => simp only [hcs] at hs; exact absurd hs.1 hg
  | opened => simp only [hcs] at hs; exact ⟨hs.1, hh hs.2⟩
  | closing => simp only [hcs] at hs; exact ⟨hs.1, hh (hs.2.resolve_left hg)⟩
  | closed => simp only [hcs] at hs; exact absurd hs.1 hg

theorem Inv.onClose {r : Racing} (h : r.Inv) (hr : r.signal.running = true) {k : ℕ}
    (hk : k ∈ r.signal.live) (code : Option CloseStatus) :
    Inv { r with signal := (r.signal.onClose k code).1 } := by
  obtain ⟨⟨hn, ha, hw⟩, hl, -, -⟩ := h.of_live hk
  have hw' : r.signal.waits.countP Wait.pending = 0 := hw
  refine ⟨h.thread, fun hr' => by simp [Signal.onClose, hr] at hr', h.order, ?_, h.closed, h.sends⟩
  simp [StateOk, Gone, Signal.onClose, hl, hn, ha, Signal.pendingWaits, hw']

/-- A wait that can still fire belongs to a closed connection that nobody closes. -/
theorem Inv.of_pending {r : Racing} (h : r.Inv) (hp : 0 < r.signal.pendingWaits) :
    r.signal.conState = .closed ∧ r.Gone ∧ r.signal.pendingWaits = 1 ∧ r.signal.connects = 0 ∧
      r.signal.attempts = [] ∧ r.requests = [] := by
  have hs := h.state
  unfold StateOk at hs
  cases hcs : r.signal.conState with
  | opening => simp only [hcs] at hs; omega
  | opened => simp only [hcs, Still] at hs; omega
  | closing => simp only [hcs, Still] at hs; omega
  | closed =>
    simp only [hcs] at hs
    obtain ⟨g, h1, h2, h3, h4⟩ := hs
    exact ⟨rfl, g, by omega, h1, h2, h4 hp⟩

theorem Inv.timeoutReconnect {r : Racing} (h : r.Inv) (hr : r.signal.running = true) {i : ℕ}
    (hi : r.signal.waits[i]? = some .expired) :
    Inv { r with
      signal := Signal.timeoutReconnect { r.signal with waits := r.signal.waits.eraseIdx i }
      dispatched := r.dispatched ++ [.connectInternal] } := by
  have he := Signal.countP_eraseIdx_expired r.signal.waits i hi
  obtain ⟨hc, ⟨hl, hh⟩, hw, hn, ha, hq⟩ := h.of_pending (by unfold Signal.pendingWaits; omega)
  have hw' : r.signal.waits.countP Wait.pending = 1 := hw
  have hq' : r.signal.closes = [] ∧ r.call.request = [] := by
    simpa [requests, List.append_eq_nil_iff] using hq
  refine ⟨?_, ?_, ?_, ?_, ?_, h.sends⟩
  · simpa [Signal.timeoutReconnect, hc] using h.thread
  · simp [Signal.timeoutReconnect, hc, hr]
  · rw [h.order]
    simp [Signal.timeoutReconnect, hc, hn]
  · have hz : (r.signal.waits.eraseIdx i).countP Wait.pending = 0 := by omega
    simp only [StateOk, Signal.timeoutReconnect, hc, if_true, Gone, Signal.pendingWaits]
    exact ⟨⟨hl, hh⟩, hz, by simp [hn, ha], Or.inl ha, hq'.2⟩
  · simpa [Signal.timeoutReconnect, hc] using h.closed

theorem Inv.waits {r : Racing} (h : r.Inv) (hr : r.signal.running = true) {ws : List Wait}
    (hw : ws.countP Wait.pending ≤ r.signal.waits.countP Wait.pending) :
    Inv { r with signal := { r.signal with waits := ws } } :=
  ⟨h.thread, fun hr' => by simp [hr] at hr', h.order,
    h.state.of_le rfl rfl rfl rfl rfl rfl rfl hw, h.closed, h.sends⟩

/-- A handler that dispatches nothing leaves the dispatched ones alone. -/
theorem Inv.dispatch_nothing {r : Racing} {s : Signal} (h : Inv { r with signal := s })
    (hn : s.connects = r.signal.connects) :
    Inv { r with
      signal := s
      dispatched := r.dispatched ++
        List.replicate (s.connects - r.signal.connects) Handler.connectInternal } := by
  simpa [hn] using h

theorem onOpen_connects (s : Signal) (k : ℕ) : (s.onOpen k).connects = s.connects := by
  simp [Signal.onOpen, Signal.sendOpenCommand, Signal.sendCommand, Signal.opened]

theorem onFail_connects (s : Signal) (k : ℕ) (code : Option CloseStatus) :
    (s.onFail k code).1.connects = s.connects := by
  unfold Signal.onFail
  dsimp only
  split_ifs <;> rfl

theorem Inv.net {r : Racing} (h : r.Inv) (a : Signal.NetAction) : (r.net a).Inv := by
  by_cases hr : r.signal.running = true
  swap
  · cases a <;> simpa [Racing.net, Signal.net, hr] using h
  have keep : Inv { r with signal := r.signal } := h
  cases a with
  | connectInternal ok =>
    simp only [Racing.net, hr, true_and]
    split_ifs with hd
    · exact h.connectInternal hr hd ok
    · exact h
  | closeInternal =>
    simp only [Racing.net, hr, true_and]
    split_ifs with hd
    · exact h.closeInternal hr hd
    · exact h
  | onOpen k =>
    simp only [Racing.net, Signal.net, if_pos hr]
    split_ifs with hk
    · exact Inv.dispatch_nothing (h.onOpen hr hk) (onOpen_connects r.signal k)
    · exact Inv.dispatch_nothing keep rfl
  | onFail k code =>
    simp only [Racing.net, Signal.net, if_pos hr]
    split_ifs with hk
    · exact Inv.dispatch_nothing (h.onFail hr hk code) (onFail_connects r.signal k code)
    · exact Inv.dispatch_nothing keep rfl
  | onClose k code =>
    simp only [Racing.net, Signal.net, if_pos hr]
    split_ifs with hk
    · exact Inv.dispatch_nothing (h.onClose hr hk code) rfl
    · exact Inv.dispatch_nothing keep rfl
  | expire i =>
    simp only [Racing.net, Signal.net, if_pos hr]
    split
    next hi =>
      exact Inv.dispatch_nothing (h.waits hr (Signal.countP_expire r.signal.waits i hi).le) rfl
    next =>
      exact Inv.dispatch_nothing keep rfl
  | timeoutReconnect i =>
    simp only [Racing.net, Signal.net, if_pos hr]
    split
    next hi =>
      obtain ⟨hc, -⟩ := h.of_pending
        (List.countP_pos_iff.mpr ⟨.expired, List.mem_of_getElem? hi, rfl⟩)
      have hn : (Signal.timeoutReconnect
          { r.signal with waits := r.signal.waits.eraseIdx i }).connects -
            r.signal.connects = 1 := by
        simp [Signal.timeoutReconnect, hc]
      rw [hn]
      exact h.timeoutReconnect hr hi
    next =>
      exact Inv.dispatch_nothing (h.waits hr (Signal.countP_eraseIdx_le r.signal.waits i)) rfl
    next =>
      exact Inv.dispatch_nothing keep rfl
  | exit =>
    simp only [Racing.net, Signal.net, if_pos hr]
    split_ifs with hd
    · refine Inv.dispatch_nothing ?_ rfl
      simp only [Signal.drained, decide_eq_true_eq] at hd
      obtain ⟨h1, -, h3, h4, h5⟩ := hd
      exact ⟨fun hrun => (by cases hrun), fun _ => ⟨h1, h3, h4, h5⟩, h.order, h.state, h.closed,
        h.sends⟩
    · exact Inv.dispatch_nothing keep rfl

/-! ### Runs -/

/-- The handle is never stale: whenever it is set, its connection is live. -/
theorem Inv.live_of_hdl {r : Racing} (h : r.Inv) {k : ℕ} (hk : r.signal.conHdl = some k) :
    r.signal.live = [k] := by
  have hh : (∃ k, r.Held k) → r.signal.live = [k] := by
    rintro ⟨k', h1, h2, -⟩
    rw [hk, Option.some.injEq] at h2
    rw [h1, h2]
  have hg : ¬ r.Gone := fun g => by simp [g.2] at hk
  have hs := h.state
  unfold StateOk at hs
  cases hcs : r.signal.conState with
  | opening => simp only [hcs] at hs; exact absurd hs.1 hg
  | opened => simp only [hcs] at hs; exact hh hs.2
  | closing => simp only [hcs] at hs; exact hh (hs.2.resolve_left hg)
  | closed => simp only [hcs] at hs; exact absurd hs.1 hg

theorem Inv.testOpened {r : Racing} (h : r.Inv) (ho : r.signal.conState = .opened) (sync : Bool) :
    r.call.request = [] → Inv { r with call := .opened sync r.signal.conHdl } := by
  intro hq
  have hs := h.state
  simp only [StateOk, ho] at hs
  obtain ⟨ht, k, h1, h2, h3⟩ := hs
  refine ⟨h.thread, h.idle, h.order, ?_, h.closed, h.sends⟩
  simp only [StateOk, ho]
  refine ⟨ht, k, h1, h2, fun t hm => ?_⟩
  rcases List.mem_append.mp hm with hm | hm
  · exact h3 t (by simp [requests, hm])
  · rw [List.mem_singleton.mp hm, h2]

theorem Inv.send {r : Racing} (h : r.Inv) :
    Inv { r with sends := r.sends ++ [(r.signal.conHdl, r.signal.live)], sending := false } := by
  refine ⟨h.thread, h.idle, h.order, h.state, h.closed, fun p hp k hk => ?_⟩
  rcases List.mem_append.mp hp with hp | hp
  · exact h.sends p hp k hk
  · rw [List.mem_singleton.mp hp] at hk ⊢
    simp [h.live_of_hdl hk]

theorem Inv.step {r : Racing} (h : r.Inv) (a : Action) : (r.step a).Inv := by
  cases a with
  | setReconnectAttempts n => exact ⟨h.thread, h.idle, h.order, h.state, h.closed, h.sends⟩
  | setReconnectDelay n => exact ⟨h.thread, h.idle, h.order, h.state, h.closed, h.sends⟩
  | setReconnectDelayMax n => exact ⟨h.thread, h.idle, h.order, h.state, h.closed, h.sends⟩
  | openWith id password =>
    simp only [Racing.step]
    by_cases hc : r.call = .idle
    · rw [if_pos hc]
      refine ⟨h.thread, h.idle, h.order, ?_, h.closed, h.sends⟩
      refine h.state.of_le rfl rfl rfl rfl rfl rfl ?_ le_rfl
      cases r.signal.reconnTimer <;> simp [hc, Call.request]
    · rw [if_neg hc]
      exact h
  | close sync =>
    simp only [Racing.step]
    split_ifs with hc
    · exact h.testOpened (r.signal.opened_iff.mp hc.2) sync (by simp [hc.1, Call.request])
    · exact h
  | advance => exact h.advance
  | testOpened => exact ⟨h.thread, h.idle, h.order, h.state, h.closed, h.sends⟩
  | send =>
    simp only [Racing.step]
    split_ifs
    · exact h.send
    · exact h
  | net a => exact h.net a

theorem inv_run (as : List Action) : (Base.run step init as).Inv :=
  Base.run_invariant (P := Inv) (fun _ a h => h.step a) inv_init as

/-- At most one attempt or connection exists, counting the attempts still to be
started. -/
theorem Inv.at_most_one {r : Racing} (h : r.Inv) :
    r.signal.connects + r.signal.attempts.length + r.signal.live.length ≤ 1 := by
  have hh : (∃ k, r.Held k) → r.signal.live.length = 1 := by
    rintro ⟨k, h1, -⟩
    simp [h1]
  have hs := h.state
  unfold StateOk at hs
  cases hcs : r.signal.conState with
  | opening => simp only [hcs] at hs; simp only [hs.1.1, List.length_nil]; omega
  | opened => simp only [hcs] at hs; simp [hs.1.1, hs.1.2.1, hh hs.2]
  | closing =>
    simp only [hcs] at hs
    obtain ⟨⟨h1, h2, -⟩, hg | hk⟩ := hs
    · simp [h1, h2, hg.1]
    · simp [h1, h2, hh hk]
  | closed => simp only [hcs] at hs; simp [hs.1.1, hs.2.1, hs.2.2.1]

/-- For every interleaving of the user thread with the handlers: there is at most
one connection or attempt, an opened state has the handle of the one live
connection, every command is sent to a live connection or to none, and every
connection that was closed is the one the user asked to close. -/
theorem one_connection (as : List Action) :
    (Base.run step init as).signal.attempts.length +
        (Base.run step init as).signal.live.length ≤ 1 ∧
      ((Base.run step init as).signal.conState = .opened →
        ∃ k, (Base.run step init as).signal.conHdl = some k ∧
          (Base.run step init as).signal.live = [k]) ∧
      (∀ p ∈ (Base.run step init as).sends, ∀ k, p.1 = some k → k ∈ p.2) ∧
      ∀ p ∈ (Base.run step init as).signal.closed, p.1 = some p.2 := by
  have h := inv_run as
  generalize Base.run step init as = r at h
  refine ⟨by have := h.at_most_one; omega, fun ho => ?_, h.sends, h.closed⟩
  have hs := h.state
  simp only [StateOk, ho] at hs
  obtain ⟨-, k, hl, hk, -⟩ := hs
  exact ⟨k, hk, hl⟩

end Racing

end PeerApi
