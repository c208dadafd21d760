import PeerApi.Session.Wired

/-! Opening a peer again. The signal connection outlives the sessions, and
`Connect` starts a new attempt only when the network thread is gone, or closing or
closed. A session that ended without closing the connection leaves it opened or
opening, and the next `Open` then finds it so and does nothing: unless an attempt
is still to be started, no `open` command is sent in the new session.

On a closed connection `Connect` cancels the reconnect timer and joins the network
thread, which has nothing left to do and ends. But a timer that has expired cannot be
cancelled any more: its handler connects again during the join, and the join waits for
that connection to close. -/

namespace PeerApi.World

open Base

variable {env : Env} {w : World}

/-! ### Running worlds -/

/-- Nothing happens after a crash. -/
theorem run_crashed (hf : w.fault ≠ none) (as : List Action) : run (World.step env) w as = w := by
  induction as with
  | nil => rfl
  | cons a as ih =>
    have hs : w.step env a = w := by
      unfold World.step
      rw [if_pos (Option.isSome_iff_ne_none.mpr hf)]
    rw [run_cons, hs, ih]

/-- A run that has not crashed made only permitted calls. -/
theorem permitted_of_running {as : List Action} (hf : (run (World.step env) w as).fault = none) :
    Along (World.step env) PermittedStep w as := by
  induction as generalizing w with
  | nil => trivial
  | cons a as ih =>
    rw [run_cons] at hf
    refine ⟨fun hn => ?_, ih hf⟩
    cases a with
    | api a =>
      by_contra hp
      simp only [Permitted, not_or, Bool.not_eq_true, Option.isSome_eq_false_iff,
        Option.isNone_iff_eq_none] at hp
      have hc : (w.step env (.api a)).fault = some .nullControl := step_null hn hp.2 hp.1
      rw [run_crashed (by simp [hc]), hc] at hf
      cases hf
    | _ => trivial

theorem wired_of_running {as : List Action} (hf : (run (World.step env) init as).fault = none) :
    Wired (run (World.step env) init as) :=
  Wired.along (permitted_of_running hf) fun _ _ h => h

/-! ### A fresh connection -/

/-- The `open` command with the given credentials. -/
def openCommand (id password : String) : SignalCommand :=
  ⟨"", "open", .obj [("user_id", .str id), ("user_password", .str password)]⟩

/-- An attempt is dispatched and nothing else is under way; when it succeeds, the
`open` command of the session is the next one sent. -/
structure Starting (env : Env) (s : Signal) : Prop where
  state : s.conState = .opening
  running : s.running = true
  connects : s.connects = 1
  attempts : s.attempts = []
  live : s.live = []
  sends : (((s.net (.connectInternal true)).1.net (.onOpen s.nextConn)).1).sent =
    s.sent ++ [openCommand env.signalId env.signalPassword]

def Fresh (env : Env) (w : World) : Prop := ∃ s, w.signal = some s ∧ Starting env s

/-- The run loop has run all that came due: what was dispatched to it, the end of each
attempt and every timer. Only a live connection keeps it from ending. -/
def Exhausted (s : Signal) : Prop :=
  s.connects = 0 ∧ s.closes = [] ∧ s.attempts = [] ∧ s.waits = [] ∧
    (s.live = [] → s.running = false)

instance (s : Signal) : Decidable (Exhausted s) :=
  inferInstanceAs (Decidable (s.connects = 0 ∧ s.closes = [] ∧ s.attempts = [] ∧ s.waits = [] ∧
    (s.live = [] → s.running = false)))

/-- If the `Open` joins the network thread, the thread runs all that comes due. -/
def FairJoin (env : Env) (w : World) : Prop :=
  ∀ s ∈ w.signal, (s.openWith env.signalId env.signalPassword).joining.isSome = true →
    Exhausted (netRun (env.join w.joins) (s.openWith env.signalId env.signalPassword))

instance (env : Env) (w : World) : Decidable (FairJoin env w) :=
  inferInstanceAs (Decidable (∀ s ∈ w.signal,
    (s.openWith env.signalId env.signalPassword).joining.isSome = true →
      Exhausted (netRun (env.join w.joins) (s.openWith env.signalId env.signalPassword))))

/-- The environment in which the given handlers run during join `n`. -/
def joining (n : ℕ) (js : List Signal.NetAction) (env : Env) : Env :=
  { env with join := Function.update env.join n js }

/-- Whatever runs during a fair join, `Open` returns and leaves a new attempt. -/
def Reopens (env : Env) (w : World) : Prop :=
  ∀ js, FairJoin (joining w.joins js env) w →
    (w.peerOpen (joining w.joins js env)).fault = none ∧
      Fresh (joining w.joins js env) (w.peerOpen (joining w.joins js env))

/-- `Connect` has something to start: there is no network thread, or the connection is
closed and no timer has expired, or its attempt has not begun. -/
def Startable : Option Signal → Prop
  | none => True
  | some s => s.thread = false ∨ (s.conState = .closed ∧ .expired ∉ s.waits) ∨
      (s.conState = .opening ∧ s.connects = 1)

instance : (s : Option Signal) → Decidable (Startable s)
  | none => inferInstanceAs (Decidable True)
  | some s => inferInstanceAs (Decidable (s.thread = false ∨
      (s.conState = .closed ∧ .expired ∉ s.waits) ∨ (s.conState = .opening ∧ s.connects = 1)))

theorem starting_sends {s : Signal} (hr : s.running = true) (hn : s.connects = 1) :
    (((s.net (.connectInternal true)).1.net (.onOpen s.nextConn)).1).sent =
      s.sent ++ [openCommand s.userId s.userPassword] := by
  simp [Signal.net, hr, hn, Signal.connectInternal, Signal.onOpen, Signal.sendOpenCommand,
    Signal.sendCommand, Signal.opened, openCommand]

theorem startLoop_starting {s : Signal} (h : s.Inv) (hr : s.running = false)
    (hid : s.userId = env.signalId) (hpw : s.userPassword = env.signalPassword) :
    Starting env s.startLoop := by
  have hd := h.idle hr
  simp only [Signal.drained, decide_eq_true_eq] at hd
  obtain ⟨hn, -, ha, hl, -⟩ := hd
  have hn' : s.startLoop.connects = 1 := by simp [Signal.startLoop, hn]
  refine ⟨rfl, rfl, hn', ha, hl, ?_⟩
  rw [starting_sends rfl hn', ← hid, ← hpw]
  rfl

/-- The attempt that is still to be started is the only thing under way. -/
theorem starting_iff {s : Signal} (h : s.Inv) (hid : s.userId = env.signalId)
    (hpw : s.userPassword = env.signalPassword) :
    Starting env s ↔ s.conState = .opening ∧ s.connects = 1 := by
  constructor
  · intro hs
    exact ⟨hs.state, hs.connects⟩
  · rintro ⟨ho, hn⟩
    have hs := h.state
    simp only [Signal.StateOk, ho] at hs
    obtain ⟨hl, -, hle⟩ := hs
    have ha : s.attempts = [] := by
      apply List.eq_nil_of_length_eq_zero
      omega
    have hr : s.running = true := by
      by_contra hr
      have hd := h.idle (by simpa using hr)
      simp only [Signal.drained, decide_eq_true_eq] at hd
      omega
    refine ⟨ho, hr, hn, ha, hl, ?_⟩
    rw [starting_sends hr hn, hid, hpw]

/-! ### What `Open` makes of the connection -/

/-- The connection when `Connect` has cancelled the timer. -/
structure Cancelled (id password : String) (s t : Signal) : Prop where
  inv : t.Inv
  joining : t.joining = none
  userId : t.userId = id
  userPassword : t.userPassword = password
  conState : t.conState = s.conState
  thread : t.thread = s.thread
  connects : t.connects = s.connects
  timer : t.reconnTimer = false
  waits : .expired ∈ t.waits ↔ .expired ∈ s.waits

theorem expired_mem_cancel (ws : List Wait) : .expired ∈ ws.map Wait.cancel ↔ .expired ∈ ws := by
  rw [List.mem_map]
  constructor
  · rintro ⟨wt, hwt, he⟩
    cases wt with
    | expired => exact hwt
    | armed delay => cases he
    | aborted => cases he
  · exact fun h => ⟨.expired, h, rfl⟩

theorem cancelTimer_cancelled {s : Signal} (h : s.Inv) (hj : s.joining = none)
    (id password : String) :
    Cancelled id password s
      (Signal.cancelTimer { s with userId := id, userPassword := password }) := by
  have hi : Signal.Inv { s with userId := id, userPassword := password } :=
    ⟨h.thread, h.idle, h.state, h.timer⟩
  have hc := hi.cancelTimer
  unfold Signal.cancelTimer at hc ⊢
  split_ifs at hc ⊢ with ht
  · exact ⟨hc, hj, rfl, rfl, rfl, rfl, rfl, rfl, expired_mem_cancel s.waits⟩
  · exact ⟨hc, hj, rfl, rfl, rfl, rfl, rfl, by simpa using ht, Iff.rfl⟩

/-- The three ways of `Open` on a connection. -/
theorem openWith_cases {s : Signal} (h : s.Inv) (hj : s.joining = none) (id password : String) :
    ∃ t : Signal, Cancelled id password s t ∧
      ((s.thread = false ∧ s.openWith id password = t.startLoop) ∨
        (s.thread = true ∧ (s.conState = .closing ∨ s.conState = .closed) ∧
          s.openWith id password = { t with joining := some .connect }) ∨
        (s.thread = true ∧ s.conState ≠ .closing ∧ s.conState ≠ .closed ∧
          s.openWith id password = t)) := by
  have hc := cancelTimer_cancelled h hj id password
  refine ⟨_, hc, ?_⟩
  unfold Signal.openWith Signal.connect
  dsimp only
  rw [hc.thread, hc.conState]
  cases hth : s.thread with
  | false => exact Or.inl ⟨rfl, rfl⟩
  | true =>
    by_cases hs : s.conState = .closing ∨ s.conState = .closed
    · exact Or.inr (Or.inl ⟨rfl, hs, by simp [hs]⟩)
    · rw [not_or] at hs
      exact Or.inr (Or.inr ⟨rfl, hs.1, hs.2, by simp [hs.1, hs.2]⟩)

theorem running_of_thread {s : Signal} (h : s.Inv) (ht : s.thread = false) : s.running = false := by
  cases hr : s.running with
  | false => rfl
  | true =>
    rw [h.thread hr] at ht
    cases ht

/-- The world in which `Control::Open` is called. -/
theorem peerOpen_eq (hc : w.control = none) (hi : env.createPeerFactory w.nextControl = true)
    (h : Wired w) : ∃ v : World, w.peerOpen env =
      v.signalCall env (·.openWith env.signalId env.signalPassword) ∧ Linked v ∧
      v.signal = some (w.signal.getD .init) ∧ v.joins = w.joins ∧ v.fault = w.fault := by
  have hv : Linked ((newControl { w with signal := some (w.signal.getD .init) }).modifyControl
      w.nextControl fun k =>
        { k with thread := true, peerName := env.peerId, userId := env.signalId }) :=
    h.newControl.toLinked.of_eq rfl rfl rfl rfl
  refine ⟨_, ?_, hv, rfl, rfl, rfl⟩
  unfold peerOpen
  rw [if_neg (by simp [hc])]
  dsimp only
  rw [if_pos hi]

theorem signalCall_returns {v : World} {s : Signal} {f : Signal → Signal} (hs : v.signal = some s)
    (hj : (f s).joining = none) : v.signalCall env f = { v with signal := some (f s) } := by
  unfold signalCall
  rw [hs]
  dsimp only
  rw [if_neg (by simp [hj])]

theorem signalCall_joins {v : World} {s : Signal} {f : Signal → Signal} (hs : v.signal = some s)
    (hj : (f s).joining.isSome = true) :
    v.signalCall env f = World.join env { v with signal := some (f s) } := by
  unfold signalCall
  rw [hs]
  dsimp only
  rw [if_pos hj]

theorem fresh_iff {s : Signal} (hs : w.signal = some s) : Fresh env w ↔ Starting env s := by
  constructor
  · rintro ⟨t, ht, h⟩
    obtain rfl := Option.some.inj (hs.symm.trans ht)
    exact h
  · exact fun h => ⟨s, hs, h⟩

/-! ### A join with nothing to wait for -/

/-- Nothing is under way that can lead to a connection. -/
structure Idle (s : Signal) : Prop where
  connects : s.connects = 0
  attempts : s.attempts = []
  live : s.live = []
  waits : ∀ wt ∈ s.waits, wt = .aborted

theorem Idle.closeInternal {s : Signal} (h : Idle s) : Idle s.closeInternal := by
  have hcancel : ∀ t : Signal, Idle t → Idle t.cancelTimer := by
    intro t ht
    unfold Signal.cancelTimer
    split_ifs
    · refine ⟨ht.connects, ht.attempts, ht.live, fun wt hwt => ?_⟩
      obtain ⟨wt', hwt', rfl⟩ := List.mem_map.mp hwt
      rw [ht.waits wt' hwt']
      rfl
    · exact ht
  have hc := hcancel { s with closes := s.closes.tail } ⟨h.connects, h.attempts, h.live, h.waits⟩
  unfold Signal.closeInternal
  dsimp only
  split
  · split_ifs
    · exact hc
    · exact ⟨hc.connects, hc.attempts, hc.live, hc.waits⟩
  · exact hc

/-- An idle connection stays so, and reports nothing. -/
theorem Idle.net {s : Signal} (h : Idle s) (a : Signal.NetAction) :
    Idle (s.net a).1 ∧ (s.net a).2 = [] := by
  unfold Signal.net
  by_cases hr : s.running = true
  swap
  · rw [if_neg hr]
    exact ⟨h, rfl⟩
  rw [if_pos hr]
  cases a with
  | connectInternal ok =>
    dsimp only
    rw [if_neg (by simp [h.connects])]
    exact ⟨h, rfl⟩
  | closeInternal =>
    dsimp only
    split_ifs
    · exact ⟨h, rfl⟩
    · exact ⟨h.closeInternal, rfl⟩
  | onOpen k =>
    dsimp only
    rw [if_neg (by simp [h.attempts])]
    exact ⟨h, rfl⟩
  | onFail k code =>
    dsimp only
    rw [if_neg (by simp [h.attempts])]
    exact ⟨h, rfl⟩
  | onClose k code =>
    dsimp only
    rw [if_neg (by simp [h.live])]
    exact ⟨h, rfl⟩
  | expire i =>
    dsimp only
    split
    next hi => cases h.waits _ (List.mem_of_getElem? hi)
    next => exact ⟨h, rfl⟩
  | timeoutReconnect i =>
    dsimp only
    split
    next hi => cases h.waits _ (List.mem_of_getElem? hi)
    next =>
      refine ⟨⟨h.connects, h.attempts, h.live, fun wt hwt => ?_⟩, rfl⟩
      exact h.waits wt (List.mem_of_mem_eraseIdx hwt)
    next => exact ⟨h, rfl⟩
  | exit =>
    dsimp only
    split_ifs
    · exact ⟨⟨h.connects, h.attempts, h.live, h.waits⟩, rfl⟩
    · exact ⟨h, rfl⟩

/-- During the join nothing but the connection changes, and it stays idle. -/
theorem Idle.nets {v : World} {s : Signal} (h : Idle s) (hs : v.signal = some s)
    (js : List Signal.NetAction) :
    js.foldl World.net v = { v with signal := some (netRun js s) } ∧ Idle (netRun js s) := by
  induction js generalizing v s with
  | nil =>
    refine ⟨?_, h⟩
    show v = { v with signal := some s }
    rw [← hs]
  | cons a js ih =>
    obtain ⟨hidle, hcodes⟩ := h.net a
    have he : v.net a = { v with signal := some (s.net a).1 } := by
      simp only [World.net, hs, hcodes, List.foldl_nil]
    obtain ⟨hnets, hrun⟩ := ih (v := { v with signal := some (s.net a).1 }) hidle rfl
    exact ⟨by rw [List.foldl_cons, he, hnets]; rfl, hrun⟩

/-- An idle connection lets the join return. -/
theorem Idle.join {v : World} {s : Signal} (h : Idle s) (hs : v.signal = some s)
    (he : Exhausted (netRun (env.join v.joins) s)) : (v.join env).fault = v.fault := by
  obtain ⟨hnets, hidle⟩ := Idle.nets (v := { v with joins := v.joins + 1 }) h hs (env.join v.joins)
  have hr := he.2.2.2.2 hidle.live
  unfold World.join
  simp only [hnets, hr, Bool.false_eq_true, if_false]

/-- On a closed connection only an expired timer is left after the cancel. -/
theorem Cancelled.idle {id password : String} {s t : Signal} (h : Cancelled id password s t)
    (hs : s.conState = .closed) (hw : .expired ∉ s.waits) : Idle t := by
  have hok := h.inv.state
  simp only [Signal.StateOk, h.conState, hs] at hok
  obtain ⟨hn, ha, hl, -⟩ := hok
  refine ⟨hn, ha, hl, fun wt hwt => ?_⟩
  cases wt with
  | armed delay => exact absurd hwt (h.inv.timer h.timer delay)
  | expired => exact absurd (h.waits.mp hwt) hw
  | aborted => rfl

/-- A join that returns leaves a new loop behind. -/
theorem joined_starting {v : World} (hl : Linked v) {s t : Signal} (hs : v.signal = some s)
    {f : Signal → Signal} (hf : SignalCall f) (ht : Cancelled env.signalId env.signalPassword s t)
    (he : f s = { t with joining := some .connect }) (hr : (v.signalCall env f).fault = none) :
    (netRun (env.join v.joins) (f s)).running = false ∧ Fresh env (v.signalCall env f) := by
  have hj : (f s).joining = some .connect := by rw [he]
  have hl' : Linked { v with signal := some (f s) } :=
    hl.goes hs (hf.inv s (hl.inv s hs)) (by rw [hf.sent])
  rw [signalCall_joins hs (by rw [hj]; rfl)] at hr ⊢
  obtain ⟨hrun, hsig⟩ := (hl'.join env rfl (by rw [hj]; rfl)).2.2 hr
  have hu := netRun_userPart (env.join v.joins) (f s)
  have hn := netRun_inv (hf.inv s (hl.inv s hs)) (env.join v.joins)
  dsimp only at hrun hsig
  refine ⟨hrun, ?_⟩
  generalize netRun (env.join v.joins) (f s) = n at hrun hsig hu hn
  simp only [Signal.userPart, Prod.mk.injEq, he, ht.userId, ht.userPassword] at hu
  obtain ⟨hnj, hnid, hnpw⟩ := hu
  rw [fresh_iff hsig, Signal.joined, hnj]
  refine startLoop_starting ⟨fun h => ?_, hn.idle, hn.state, hn.timer⟩ hrun hnid hnpw
  rw [hrun] at h
  cases h

/-! ### A join that waits for a new connection -/

theorem netRun_append (as bs : List Signal.NetAction) (s : Signal) :
    netRun (as ++ bs) s = netRun bs (netRun as s) := List.foldl_append

/-- The dispatched closes find no connection. -/
theorem netRun_closes {s : Signal} (hr : s.running = true) (hl : s.live = [])
    (ht : s.reconnTimer = false) :
    netRun (List.replicate s.closes.length .closeInternal) s = { s with closes := [] } := by
  obtain ⟨closes, hc⟩ : ∃ closes, s.closes = closes := ⟨_, rfl⟩
  rw [hc]
  induction closes generalizing s with
  | nil =>
    show s = { s with closes := [] }
    rw [← hc]
  | cons c closes ih =>
    have hstep : (s.net .closeInternal).1 = { s with closes := closes } := by
      simp only [Signal.net, hr, hc, if_true, reduceCtorEq, if_false, Signal.closeInternal,
        Signal.cancelTimer, ht, List.tail_cons, Bool.false_eq_true, Signal.hdlExpired, hl]
      split <;> simp [*]
    rw [List.length_cons, List.replicate_succ]
    show netRun (List.replicate closes.length .closeInternal) (s.net .closeInternal).1 = _
    rw [hstep]
    exact ih (s := { s with closes := closes }) hr hl ht rfl

/-- The handlers of aborted timers do nothing. -/
theorem netRun_aborted {s : Signal} (hr : s.running = true) (hw : ∀ wt ∈ s.waits, wt = .aborted) :
    netRun (List.replicate s.waits.length (.timeoutReconnect 0)) s = { s with waits := [] } := by
  obtain ⟨waits, hs⟩ : ∃ waits, s.waits = waits := ⟨_, rfl⟩
  rw [hs] at hw ⊢
  induction waits generalizing s with
  | nil =>
    show s = { s with waits := [] }
    rw [← hs]
  | cons wt waits ih =>
    obtain rfl : wt = .aborted := hw wt List.mem_cons_self
    have hstep : (s.net (.timeoutReconnect 0)).1 = { s with waits := waits } := by
      simp [Signal.net, hr, hs]
    rw [List.length_cons, List.replicate_succ]
    show netRun (List.replicate waits.length (.timeoutReconnect 0))
      (s.net (.timeoutReconnect 0)).1 = _
    rw [hstep]
    exact ih (s := { s with waits := waits }) hr
      (fun wt hwt => hw wt (List.mem_cons_of_mem _ hwt)) rfl

/-- An expired timer connects again. -/
theorem netRun_reconnects {s : Signal} (h : s.Inv) (hr : s.running = true) {i : ℕ}
    (hi : s.waits[i]? = some .expired) :
    let t := netRun [.timeoutReconnect i, .connectInternal true, .onOpen s.nextConn] s
    t.running = true ∧ t.connects = 0 ∧ t.closes = s.closes ∧ t.attempts = [] ∧
      t.live = [s.nextConn] ∧ t.waits = s.waits.eraseIdx i := by
  have he := Signal.countP_eraseIdx_expired s.waits i hi
  obtain ⟨hc, -, hn, ha, hl⟩ := h.of_pending (by unfold Signal.pendingWaits; omega)
  simp [netRun, Signal.net, hr, hi, Signal.timeoutReconnect, hc, hn, Signal.connectInternal, ha,
    Signal.onOpen, Signal.sendOpenCommand, Signal.sendCommand, Signal.opened, hl]

/-- With an expired timer a fair join need not return. -/
theorem exists_stuck {s : Signal} (h : s.Inv) (ht : s.reconnTimer = false)
    (hw : .expired ∈ s.waits) :
    ∃ js, Exhausted (netRun js s) ∧ (netRun js s).running = true := by
  have hr : s.running = true := by
    by_contra hr
    have hd := h.idle (by simpa using hr)
    simp only [Signal.drained, decide_eq_true_eq] at hd
    simp [hd.2.2.2.2] at hw
  obtain ⟨i, hi⟩ := List.mem_iff_getElem?.mp hw
  have he := Signal.countP_eraseIdx_expired s.waits i hi
  obtain ⟨-, hp, -, -, hl⟩ := h.of_pending (by unfold Signal.pendingWaits; omega)
  have haborted : ∀ wt ∈ s.waits.eraseIdx i, wt = .aborted := by
    have hzero : (s.waits.eraseIdx i).countP Wait.pending = 0 := by
      unfold Signal.pendingWaits at hp
      omega
    intro wt hwt
    have := List.countP_eq_zero.mp hzero wt hwt
    cases wt <;> simp [Wait.pending] at this ⊢
  have hcloses := netRun_closes hr hl ht
  have h' : Signal.Inv { s with closes := [] } := hcloses ▸ netRun_inv h _
  obtain ⟨hr₁, hn₁, hc₁, ha₁, hl₁, hw₁⟩ := netRun_reconnects h' hr hi
  have hwaits := netRun_aborted hr₁ (hw₁ ▸ haborted)
  refine ⟨List.replicate s.closes.length .closeInternal ++
    ([.timeoutReconnect i, .connectInternal true, .onOpen s.nextConn] ++
      List.replicate (s.waits.eraseIdx i).length (.timeoutReconnect 0)), ?_⟩
  rw [hw₁] at hwaits
  rw [netRun_append, netRun_append, hcloses, hwaits]
  exact ⟨⟨hn₁, hc₁, ha₁, rfl, fun hl => by rw [hl₁] at hl; cases hl⟩, hr₁⟩

/-! ### Opening again -/

theorem Wired.getD_inv (h : Wired w) : (w.signal.getD .init).Inv := by
  cases hs : w.signal with
  | none => exact Signal.inv_init
  | some s => exact h.inv s hs

theorem Wired.getD_joining (h : Wired w) (hf : w.fault = none) :
    (w.signal.getD .init).joining = none := by
  cases hs : w.signal with
  | none => rfl
  | some s => exact h.joined hf s hs

theorem Wired.getD_unclosing (h : Wired w) (hf : w.fault = none) :
    (w.signal.getD .init).conState ≠ .closing := by
  cases hs : w.signal with
  | none => simp [Signal.init]
  | some s => exact h.unclosing hf s hs

theorem startable_getD (w : World) : Startable w.signal ↔ Startable (some (w.signal.getD .init)) := by
  cases w.signal with
  | none => simp [Startable, Signal.init]
  | some s => rfl

/-- The join of an `Open` is a join of the connection as `Open` finds it. -/
theorem fairJoin_getD : FairJoin env w ↔
    (((w.signal.getD .init).openWith env.signalId env.signalPassword).joining.isSome = true →
      Exhausted (netRun (env.join w.joins)
        ((w.signal.getD .init).openWith env.signalId env.signalPassword))) := by
  unfold FairJoin
  cases w.signal with
  | none =>
    simp [Signal.openWith, Signal.connect, Signal.cancelTimer, Signal.init, Signal.startLoop]
  | some s => simp

/-- Where `Open` does not wait, it leaves the connection as it is. -/
theorem Wired.peerOpen_fresh_iff (h : Wired w) (hc : w.control = none)
    (hi : env.createPeerFactory w.nextControl = true) {t : Signal}
    (ht : Cancelled env.signalId env.signalPassword (w.signal.getD .init) t)
    (he : (w.signal.getD .init).openWith env.signalId env.signalPassword = t) :
    (w.peerOpen env).fault = w.fault ∧
      (Fresh env (w.peerOpen env) ↔
        (w.signal.getD .init).conState = .opening ∧ (w.signal.getD .init).connects = 1) := by
  obtain ⟨v, hv, -, hsig, -, hfault⟩ := peerOpen_eq hc hi h
  rw [hv, signalCall_returns hsig (by rw [he, ht.joining]), fresh_iff rfl, he,
    starting_iff ht.inv ht.userId ht.userPassword, ht.conState, ht.connects]
  exact ⟨hfault, Iff.rfl⟩

/-- `Open` on a startable connection returns and starts an attempt. -/
theorem Wired.peerOpen_fresh (h : Wired w) (hf : w.fault = none) (hc : w.control = none)
    (hi : env.createPeerFactory w.nextControl = true) (hs : Startable w.signal)
    (hfair : FairJoin env w) :
    (w.peerOpen env).fault = none ∧ Fresh env (w.peerOpen env) := by
  obtain ⟨v, hv, hl, hsig, hjoins, hfault⟩ := peerOpen_eq hc hi h
  have hunclosing := h.getD_unclosing hf
  have hexhausted := fairJoin_getD.mp hfair
  rw [startable_getD] at hs
  obtain ⟨t, ht, hcase⟩ :=
    openWith_cases (hl.inv _ hsig) (h.getD_joining hf) env.signalId env.signalPassword
  have hopen := h.peerOpen_fresh_iff hc hi ht
  rw [hv] at hopen ⊢
  generalize w.signal.getD .init = s at *
  rcases hcase with ⟨hno, he⟩ | ⟨hyes, hcl, he⟩ | ⟨hyes, -, hncd, he⟩
  · rw [signalCall_returns hsig (by rw [he]; exact ht.joining), he, fresh_iff rfl]
    exact ⟨hfault.trans hf, startLoop_starting ht.inv
      (running_of_thread ht.inv (ht.thread.trans hno)) ht.userId ht.userPassword⟩
  · have hclosed := hcl.resolve_left hunclosing
    have hw : .expired ∉ s.waits := by
      simpa [Startable, hyes, hclosed] using hs
    have hidle := ht.idle hclosed hw
    have hj : (s.openWith env.signalId env.signalPassword).joining.isSome = true := by
      rw [he]
      rfl
    have hreturns : (v.signalCall env (·.openWith env.signalId env.signalPassword)).fault = none := by
      rw [signalCall_joins hsig hj, Idle.join (s := s.openWith env.signalId env.signalPassword)
        (he ▸ ⟨hidle.connects, hidle.attempts, hidle.live, hidle.waits⟩) rfl
        (hjoins ▸ hexhausted hj)]
      exact hfault.trans hf
    exact ⟨hreturns, (joined_starting hl hsig (signalCall_openWith _ _) ht he hreturns).2⟩
  · exact ⟨(hopen he).1.trans hf, (hopen he).2.mpr (by simpa [Startable, hyes, hncd] using hs)⟩

/-- An `Open` that waits for a thread that does not end does not return. -/
theorem Wired.peerOpen_stuck (h : Wired w) (hc : w.control = none)
    (hi : env.createPeerFactory w.nextControl = true) {t : Signal}
    (ht : Cancelled env.signalId env.signalPassword (w.signal.getD .init) t)
    (he : (w.signal.getD .init).openWith env.signalId env.signalPassword =
      { t with joining := some .connect })
    (hrun : (netRun (env.join w.joins) { t with joining := some .connect }).running = true) :
    (w.peerOpen env).fault ≠ none := by
  intro hreturns
  obtain ⟨v, hv, hl, hsig, hjoins, -⟩ := peerOpen_eq hc hi h
  rw [hv] at hreturns
  have hends := (joined_starting hl hsig (signalCall_openWith _ _) ht he hreturns).1
  rw [he, hjoins, hrun] at hends
  cases hends

/-- On any other connection `Open` starts nothing, or waits for a connection. -/
theorem Wired.startable_of_reopens (h : Wired w) (hf : w.fault = none) (hc : w.control = none)
    (hi : env.createPeerFactory w.nextControl = true) (hr : Reopens env w) :
    Startable w.signal := by
  rw [startable_getD]
  have hunclosing := h.getD_unclosing hf
  have hjoin (js : List Signal.NetAction) : (joining w.joins js env).join w.joins = js :=
    Function.update_self ..
  obtain ⟨t, ht, hcase⟩ :=
    openWith_cases h.getD_inv (h.getD_joining hf) env.signalId env.signalPassword
  rcases hcase with ⟨hno, -⟩ | ⟨hyes, hcl, he⟩ | ⟨hyes, hncl, hncd, he⟩
  · exact Or.inl hno
  · refine Or.inr (Or.inl ⟨hcl.resolve_left hunclosing, fun hw => ?_⟩)
    obtain ⟨js, hex, hrun⟩ := exists_stuck (s := { t with joining := some .connect })
      ⟨ht.inv.thread, ht.inv.idle, ht.inv.state, ht.inv.timer⟩ ht.timer (ht.waits.mpr hw)
    have hfair : FairJoin (joining w.joins js env) w := fairJoin_getD.mpr fun _ => by
      rw [hjoin]
      exact he ▸ hex
    have hstuck : (w.peerOpen (joining w.joins js env)).fault ≠ none :=
      h.peerOpen_stuck hc hi ht he (by rw [hjoin, hrun])
    exact hstuck (hr js hfair).1
  · refine Or.inr (Or.inr ?_)
    have hfair : FairJoin (joining w.joins [] env) w := fairJoin_getD.mpr fun hj => by
      rw [show (w.signal.getD .init).openWith (joining w.joins [] env).signalId
        (joining w.joins [] env).signalPassword = t from he, ht.joining] at hj
      cases hj
    have hiff : _ ∧ (Fresh (joining w.joins [] env) (w.peerOpen (joining w.joins [] env)) ↔ _) :=
      h.peerOpen_fresh_iff hc hi ht he
    exact hiff.2.mp (hr [] hfair).2

/-- In every reachable state without a session: whatever runs during a fair join, an
`Open` returns and leaves a newly started attempt, exactly when the connection of the
last session was startable. -/
theorem reopen_fresh_iff (env : Env) (as : List Action)
    (hf : (run (World.step env) init as).fault = none)
    (hc : (run (World.step env) init as).control = none)
    (hi : env.createPeerFactory (run (World.step env) init as).nextControl = true) :
    Reopens env (run (World.step env) init as) ↔
      Startable (run (World.step env) init as).signal := by
  have h := wired_of_running hf
  generalize run (World.step env) init as = w at *
  refine ⟨h.startable_of_reopens hf hc hi, fun hs js hfair => ?_⟩
  exact h.peerOpen_fresh hf hc hi hs hfair

/-- The user closes an open session, and opens the peer again. -/
def closedByUser : List Action :=
  [.api .open, .net (.connectInternal true), .net (.onOpen 0), .api (.close ""), .process]

/-- The server closes the connection, which ends the session; the thread still runs. -/
def droppedByServer : List Action :=
  [.api .open, .net (.connectInternal true), .net (.onOpen 0),
    .net (.onClose 0 (some .abnormalClose)), .process]

theorem reopen_fresh_closedByUser :
    Reopens (.polite "a" (by decide)) (run (World.step (.polite "a" (by decide))) init closedByUser) ∧
    Reopens (.idle "a" (by decide)) (run (World.step (.idle "a" (by decide))) init droppedByServer) :=
  ⟨(reopen_fresh_iff (.polite "a" (by decide)) closedByUser (by decide +kernel) (by decide +kernel)
      rfl).mpr (by decide +kernel),
    (reopen_fresh_iff (.idle "a" (by decide)) droppedByServer (by decide +kernel) (by decide +kernel)
      rfl).mpr (by decide +kernel)⟩

/-- The thread of a closed connection only has to end. -/
example : FairJoin (joining 0 [.exit] (.idle "a" (by decide)))
    (run (World.step (.idle "a" (by decide))) init droppedByServer) := by
  decide +kernel

/-- The attempt fails, and the user closes the session when the reconnect timer has
just expired. -/
def closedExpired : List Action :=
  [.api .open, .net (.connectInternal true), .net (.onFail 0 none), .net (.expire 0),
    .api (.close ""), .process]

/-- The handler of the timer connects during the join. -/
def connectingAgain : Env :=
  joining 0 [.timeoutReconnect 0, .connectInternal true, .onOpen 1] (.idle "a" (by decide))

/-- The next `Open` waits for the connection of the old session. -/
example : FairJoin connectingAgain (run (World.step connectingAgain) init closedExpired) ∧
    ((run (World.step connectingAgain) init closedExpired).peerOpen connectingAgain).fault =
      some .deadlock := by
  decide +kernel

/-- The server refuses the channel of the peer, which ends the session and leaves the
connection open. -/
def refusedChannel : List Action :=
  [.api .open, .net (.connectInternal true), .net (.onOpen 0),
    .command (channelCreateMessage "a" false) none, .process]

theorem refusedChannel_not_fresh :
    (run (World.step (.idle "a" (by decide))) init refusedChannel).fault = none ∧
      (run (World.step (.idle "a" (by decide))) init refusedChannel).control = none ∧
      ((run (World.step (.idle "a" (by decide))) init refusedChannel).peerOpen
        (.idle "a" (by decide))).fault = none ∧
      ¬ Fresh (.idle "a" (by decide))
        ((run (World.step (.idle "a" (by decide))) init refusedChannel).peerOpen
          (.idle "a" (by decide))) := by
  refine ⟨by decide +kernel, by decide +kernel, by decide +kernel, ?_⟩
  rintro ⟨s, hs, h⟩
  have ho : ((run (World.step (.idle "a" (by decide))) init refusedChannel).peerOpen
      (.idle "a" (by decide))).signal.map Signal.conState = some .opened := by decide +kernel
  rw [hs, Option.map_some, h.state] at ho
  cases ho

end PeerApi.World
