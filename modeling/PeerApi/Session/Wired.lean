import PeerApi.Session.Serving
import PeerApi.Signal.Pending

/-! The signal connection behind the session. `signal_` is made by the first `Open`
and never dropped, so it is set whenever `control_` is; it keeps its own invariant
through everything that the session does with it, and no call is left waiting in a
join or with the connection closing. A handler of the user runs while `control_` is
set, so its calls find both pointers. The commands that are marked as written are the
ones that the connection has sent. -/

namespace PeerApi

/-- What only the user thread writes. -/
def Signal.userPart (s : Signal) : Option Join × String × String :=
  (s.joining, s.userId, s.userPassword)

/-- What the connection sends of its own accord. -/
def SignalCommand.isOpen (sc : SignalCommand) : Bool := sc.command = "open"

/-- A pointer of the `Peer` itself is null. -/
def Fault.NullDeref (f : Fault) : Prop := f = .nullControl ∨ f = .nullSignal

namespace World

open Base Relation

/-- The commands of the session that were sent. -/
def sent (w : World) : List SignalCommand :=
  (w.signal.elim [] Signal.sent).filter (!·.isOpen)

/-- The commands of the session that are marked as written. -/
def written (w : World) : List SignalCommand :=
  ((w.commands.filter (·.written)).map fun sc => ⟨sc.channel, sc.command, sc.data⟩).filter
    (!·.isOpen)

/-- The pointers and the signal connection, also while a call waits in a join. -/
structure Linked (w : World) : Prop where
  fault : ∀ f, w.fault = some f → ¬ Fault.NullDeref f
  signal : w.control.isSome = true → w.signal.isSome = true
  inv : ∀ s, w.signal = some s → s.Inv
  sent : w.sent = w.written

/-- No call waits. -/
structure Wired (w : World) : Prop extends Linked w where
  joined : w.fault = none → ∀ s, w.signal = some s → s.joining = none
  unclosing : w.fault = none → ∀ s, w.signal = some s → s.conState ≠ .closing

theorem wired_init : Wired init where
  fault _ h := by cases h
  signal h := by cases h
  inv _ h := by cases h
  sent := rfl
  joined _ _ h := by cases h
  unclosing _ _ h := by cases h

variable {env : Env} {w w' : World} {c : ℕ}

theorem Linked.of_eq (h : Linked w) (hf : w'.fault = w.fault) (hc : w'.control = w.control)
    (hs : w'.signal = w.signal) (hk : w'.commands = w.commands) : Linked w' where
  fault f hf' := h.fault f (hf ▸ hf')
  signal hc' := hs ▸ h.signal (hc ▸ hc')
  inv s hs' := h.inv s (hs ▸ hs')
  sent := by simpa only [World.sent, World.written, hs, hk] using h.sent

/-- The connection may go on, as long as it sends no command of the session. -/
theorem Linked.goes (h : Linked w) {s t : Signal} (hs : w.signal = some s) (ht : t.Inv)
    (hsent : t.sent.filter (!·.isOpen) = s.sent.filter (!·.isOpen)) :
    Linked { w with signal := some t } where
  fault := h.fault
  signal _ := rfl
  inv u hu := by
    obtain rfl := Option.some.inj hu
    exact ht
  sent := by
    rw [show World.written { w with signal := some t } = w.written from rfl, ← h.sent]
    simpa only [World.sent, hs, Option.elim_some] using hsent

/-- Everything else may change. -/
theorem Wired.of_eq (h : Wired w) (hf : w'.fault = w.fault) (hc : w'.control = w.control)
    (hs : w'.signal = w.signal) (hk : w'.commands = w.commands) : Wired w' where
  toLinked := h.toLinked.of_eq hf hc hs hk
  joined hf' s hs' := h.joined (hf ▸ hf') s (hs ▸ hs')
  unclosing hf' s hs' := h.unclosing (hf ▸ hf') s (hs ▸ hs')

theorem Linked.crash (h : Linked w) {f : Fault} (hf : ¬ Fault.NullDeref f) : Wired (w.crash f) where
  fault g hg := by
    obtain rfl : f = g := Option.some.inj hg
    exact hf
  signal := h.signal
  inv := h.inv
  sent := h.sent
  joined hn := by cases hn
  unclosing hn := by cases hn

theorem Wired.post (h : Wired w) (c : ℕ) (id : MessageId) (data : MessageData)
    (origin : Option ℕ) : Wired (w.post c id data origin) := by
  unfold World.post
  split_ifs
  · exact h.of_eq rfl rfl rfl rfl
  · exact h.toLinked.crash (by simp [Fault.NullDeref])

theorem Linked.post (h : Linked w) (c : ℕ) (id : MessageId) (data : MessageData)
    (origin : Option ℕ) : Linked (w.post c id data origin) := by
  unfold World.post
  split_ifs
  · exact h.of_eq rfl rfl rfl rfl
  · exact (h.crash (by simp [Fault.NullDeref])).toLinked

/-! ### The network thread -/

theorem closeInternal_userPart (s : Signal) : s.closeInternal.userPart = s.userPart := by
  unfold Signal.closeInternal Signal.cancelTimer
  dsimp only
  split <;> split_ifs <;> rfl

theorem onOpen_userPart (s : Signal) (k : ℕ) : (s.onOpen k).userPart = s.userPart := by
  simp only [Signal.onOpen, Signal.sendOpenCommand, Signal.sendCommand]
  split_ifs <;> rfl

theorem onFail_userPart (s : Signal) (k : ℕ) (code : Option CloseStatus) :
    (s.onFail k code).1.userPart = s.userPart := by
  simp only [Signal.onFail]
  split_ifs <;> rfl

theorem timeoutReconnect_userPart (s : Signal) : s.timeoutReconnect.userPart = s.userPart := by
  unfold Signal.timeoutReconnect
  split_ifs <;> rfl

theorem net_userPart (s : Signal) (a : Signal.NetAction) :
    (s.net a).1.userPart = s.userPart := by
  unfold Signal.net
  by_cases hr : s.running = true
  swap
  · rw [if_neg hr]
  rw [if_pos hr]
  cases a with
  | connectInternal ok =>
    simp only [Signal.connectInternal]
    split_ifs <;> rfl
  | closeInternal =>
    dsimp only
    split_ifs
    · rfl
    · exact closeInternal_userPart s
  | onOpen k =>
    dsimp only
    split_ifs
    · exact onOpen_userPart s k
    · rfl
  | onFail k code =>
    dsimp only
    split_ifs
    · exact onFail_userPart s k code
    · rfl
  | onClose k code =>
    dsimp only
    split_ifs <;> rfl
  | expire i =>
    dsimp only
    split <;> rfl
  | timeoutReconnect i =>
    dsimp only
    split
    · exact timeoutReconnect_userPart _
    · rfl
    · rfl
  | exit =>
    dsimp only
    split_ifs <;> rfl

/-- The network thread sends nothing but `open`. -/
theorem net_sent (s : Signal) (a : Signal.NetAction) :
    (s.net a).1.sent.filter (!·.isOpen) = s.sent.filter (!·.isOpen) := by
  unfold Signal.net
  by_cases hr : s.running = true
  swap
  · rw [if_neg hr]
  rw [if_pos hr]
  cases a with
  | connectInternal ok =>
    simp only [Signal.connectInternal]
    split_ifs <;> rfl
  | closeInternal =>
    dsimp only
    split_ifs
    · rfl
    · unfold Signal.closeInternal Signal.cancelTimer
      dsimp only
      split <;> split_ifs <;> rfl
  | onOpen k =>
    dsimp only
    split_ifs
    · rw [Signal.onOpen, Signal.sendOpenCommand, Signal.sendCommand_sent, if_pos (by simp [Signal.opened]),
        List.filter_append]
      simp [SignalCommand.isOpen]
    · rfl
  | onFail k code =>
    dsimp only
    simp only [Signal.onFail]
    split_ifs <;> rfl
  | onClose k code =>
    dsimp only
    split_ifs <;> rfl
  | expire i =>
    dsimp only
    split <;> rfl
  | timeoutReconnect i =>
    dsimp only
    unfold Signal.timeoutReconnect
    split
    · split_ifs <;> rfl
    · rfl
    · rfl
  | exit =>
    dsimp only
    split_ifs <;> rfl

/-- Only the user thread lets the connection be closing. -/
theorem net_unclosing {s : Signal} (h : s.conState ≠ .closing) (a : Signal.NetAction) :
    (s.net a).1.conState ≠ .closing := by
  unfold Signal.net
  by_cases hr : s.running = true
  swap
  · rwa [if_neg hr]
  rw [if_pos hr]
  cases a with
  | connectInternal ok =>
    simp only [Signal.connectInternal]
    split_ifs <;> exact h
  | closeInternal =>
    dsimp only
    split_ifs
    · exact h
    · unfold Signal.closeInternal Signal.cancelTimer
      dsimp only
      split <;> split_ifs <;> exact h
  | onOpen k =>
    dsimp only
    split_ifs
    · simp only [Signal.onOpen, Signal.sendOpenCommand, Signal.sendCommand]
      split_ifs <;> simp
    · exact h
  | onFail k code =>
    dsimp only
    simp only [Signal.onFail]
    split_ifs <;> simp [h]
  | onClose k code =>
    dsimp only
    split_ifs
    · simp [Signal.onClose]
    · exact h
  | expire i =>
    dsimp only
    split <;> exact h
  | timeoutReconnect i =>
    dsimp only
    unfold Signal.timeoutReconnect
    split
    · split_ifs
      · simp
      · exact h
    · exact h
    · exact h
  | exit =>
    dsimp only
    split_ifs <;> exact h

/-- What the handlers of the run loop make of the connection. -/
def netRun (as : List Signal.NetAction) (s : Signal) : Signal := as.foldl (fun s a => (s.net a).1) s

theorem netRun_inv {s : Signal} (h : s.Inv) (as : List Signal.NetAction) : (netRun as s).Inv := by
  induction as generalizing s with
  | nil => exact h
  | cons a as ih => exact ih (h.net a)

theorem netRun_userPart (as : List Signal.NetAction) (s : Signal) :
    (netRun as s).userPart = s.userPart := by
  induction as generalizing s with
  | nil => rfl
  | cons a as ih => exact (ih _).trans (net_userPart s a)

theorem netRun_joining (as : List Signal.NetAction) (s : Signal) :
    (netRun as s).joining = s.joining := congrArg Prod.fst (netRun_userPart as s)

/-- Posting to controls keeps the session and the signal connection. -/
theorem signalOnClosed_linked (h : Linked w) (code : CloseStatus) :
    Linked (w.signalOnClosed code) ∧ (w.signalOnClosed code).signal = w.signal ∧
      (w.signalOnClosed code).control = w.control := by
  unfold signalOnClosed
  generalize w.subscribed = cs
  induction cs generalizing w with
  | nil => exact ⟨h, rfl, rfl⟩
  | cons c cs ih =>
    have hp : Linked (w.onSignalConnectionClosed code c) ∧
        (w.onSignalConnectionClosed code c).signal = w.signal ∧
        (w.onSignalConnectionClosed code c).control = w.control := by
      unfold onSignalConnectionClosed
      split_ifs
      · refine ⟨h.post c _ _ _, ?_⟩
        unfold World.post
        split_ifs <;> exact ⟨rfl, rfl⟩
      · exact ⟨h, rfl, rfl⟩
    obtain ⟨hl, hs, hc⟩ := ih hp.1
    exact ⟨hl, hs.trans hp.2.1, hc.trans hp.2.2⟩

theorem foldl_signalOnClosed (h : Linked w) (codes : List CloseStatus) :
    Linked (codes.foldl signalOnClosed w) ∧ (codes.foldl signalOnClosed w).signal = w.signal ∧
      (codes.foldl signalOnClosed w).control = w.control := by
  induction codes generalizing w with
  | nil => exact ⟨h, rfl, rfl⟩
  | cons code codes ih =>
    obtain ⟨hl, hs, hc⟩ := signalOnClosed_linked h code
    obtain ⟨hl', hs', hc'⟩ := ih hl
    exact ⟨hl', hs'.trans hs, hc'.trans hc⟩

theorem Linked.net (h : Linked w) (a : Signal.NetAction) :
    Linked (w.net a) ∧ (w.net a).signal = w.signal.map (fun s => (s.net a).1) ∧
      (w.net a).control = w.control := by
  unfold World.net
  split
  next hs => exact ⟨h, by rw [hs]; rfl, rfl⟩
  next s hs =>
    have hl : Linked { w with signal := some (s.net a).1 } :=
      h.goes hs ((h.inv s hs).net a) (net_sent s a)
    obtain ⟨h1, h2, h3⟩ := foldl_signalOnClosed hl (s.net a).2
    exact ⟨h1, by rw [h2, hs]; rfl, h3⟩

theorem Linked.nets (h : Linked w) (as : List Signal.NetAction) :
    Linked (as.foldl World.net w) ∧ (as.foldl World.net w).signal = w.signal.map (netRun as) ∧
      (as.foldl World.net w).control = w.control := by
  induction as generalizing w with
  | nil => exact ⟨h, Option.map_id'.symm, rfl⟩
  | cons a as ih =>
    obtain ⟨h1, h2, h3⟩ := h.net a
    obtain ⟨h1', h2', h3'⟩ := ih h1
    refine ⟨h1', ?_, h3'.trans h3⟩
    rw [List.foldl_cons, h2', h2, Option.map_map]
    rfl

/-! ### Calls on the signal connection -/

theorem live_of_stopped {s : Signal} (h : s.Inv) (hr : s.running = false) : s.live = [] := by
  have hd := h.idle hr
  simp only [Signal.drained, decide_eq_true_eq] at hd
  exact hd.2.2.2.1

/-- A loop that has ended leaves no connection that is closing. -/
theorem unclosing_of_stopped {s : Signal} (h : s.Inv) (hr : s.running = false) :
    s.conState ≠ .closing := by
  intro hc
  have hs := h.state
  simp only [Signal.StateOk, hc] at hs
  obtain ⟨k, hk, -⟩ := hs.2.2.2
  simp [live_of_stopped h hr] at hk

/-- The connection is open only while the network thread runs. -/
theorem opened_of_stopped {s : Signal} (h : s.Inv) (hr : s.running = false) :
    s.opened = false := by
  by_contra ho
  simp only [Signal.opened, decide_eq_false_iff_not, not_not] at ho
  have hs := h.state
  simp only [Signal.StateOk, ho] at hs
  obtain ⟨k, hk, -⟩ := hs.2.2.2
  simp [live_of_stopped h hr] at hk

theorem thread_of_opened {s : Signal} (h : s.Inv) (ho : s.opened = true) : s.thread = true := by
  refine h.thread ?_
  by_contra hr
  rw [opened_of_stopped h (by simpa using hr)] at ho
  cases ho

theorem joined_sent (s : Signal) : s.joined.sent = s.sent := by
  unfold Signal.joined
  split <;> rfl

/-- The join returns with the call completed, or never. -/
theorem Linked.join (env : Env) (h : Linked w) {s : Signal} (hs : w.signal = some s)
    (hj : s.joining.isSome = true) :
    Wired (w.join env) ∧ (w.join env).control = w.control ∧
      ((w.join env).fault = none → (netRun (env.join w.joins) s).running = false ∧
        (w.join env).signal = some (netRun (env.join w.joins) s).joined) := by
  have h0 : Linked { w with joins := w.joins + 1 } := h.of_eq rfl rfl rfl rfl
  obtain ⟨hl, hsig, hc⟩ := h0.nets (env.join w.joins)
  replace hsig : (List.foldl World.net { w with joins := w.joins + 1 }
      (env.join w.joins)).signal = some (netRun (env.join w.joins) s) := by
    rw [hsig, hs]
    rfl
  have hinv := netRun_inv (h.inv s hs) (env.join w.joins)
  have hjoin := netRun_joining (env.join w.joins) s
  unfold World.join
  dsimp only
  generalize List.foldl World.net { w with joins := w.joins + 1 } (env.join w.joins) = v at hl hsig hc
  generalize netRun (env.join w.joins) s = t at hsig hinv hjoin
  rw [hsig]
  dsimp only
  cases hr : t.running with
  | true =>
    rw [if_pos rfl]
    exact ⟨hl.crash (by simp [Fault.NullDeref]), hc, fun hf => by cases hf⟩
  | false =>
    rw [if_neg (by simp)]
    refine ⟨⟨hl.goes hsig (hinv.joined hr) (by rw [joined_sent]), fun _ u hu => ?_,
      fun _ u hu => ?_⟩, hc, fun _ => ⟨rfl, rfl⟩⟩
    · obtain rfl := Option.some.inj hu
      rw [← hjoin] at hj
      unfold Signal.joined
      split
      · rfl
      · rfl
      next hn => rw [hn] at hj; cases hj
    · obtain rfl := Option.some.inj hu
      have hclosing := unclosing_of_stopped hinv hr
      unfold Signal.joined
      split
      · simp [Signal.startLoop]
      · exact hclosing
      · exact hclosing

/-- A call of the user thread on the connection. -/
structure SignalCall (f : Signal → Signal) : Prop where
  inv : ∀ s, s.Inv → (f s).Inv
  sent : ∀ s, (f s).sent = s.sent
  unclosing : ∀ s, s.Inv → s.joining = none → s.conState ≠ .closing → (f s).joining = none →
    (f s).conState ≠ .closing

theorem cancelTimer_sent (s : Signal) : s.cancelTimer.sent = s.sent := by
  unfold Signal.cancelTimer
  split_ifs <;> rfl

theorem signalCall_openWith (id password : String) :
    SignalCall (·.openWith id password) where
  inv s h := h.openWith _ _
  sent s := by
    unfold Signal.openWith Signal.connect
    dsimp only
    split_ifs <;> exact cancelTimer_sent _
  unclosing s _ _ hs _ := by
    unfold Signal.openWith Signal.connect Signal.cancelTimer
    dsimp only
    split_ifs <;> simp [Signal.startLoop, hs]

theorem signalCall_syncClose : SignalCall Signal.syncClose where
  inv s h := h.syncClose
  sent s := by
    unfold Signal.syncClose Signal.close
    split_ifs <;> rfl
  unclosing s h hj hs hf := by
    by_cases ho : s.opened = true
    · simp [Signal.syncClose, ho, thread_of_opened h ho] at hf
    · unfold Signal.syncClose
      rwa [if_neg ho]

theorem Wired.signalCall (env : Env) (h : Wired w) {f : Signal → Signal} (hf : SignalCall f) :
    Wired (w.signalCall env f) ∧ (w.signalCall env f).control = w.control := by
  unfold World.signalCall
  split
  · exact ⟨h, rfl⟩
  next s hs =>
    have hl : Linked { w with signal := some (f s) } :=
      h.goes hs (hf.inv s (h.inv s hs)) (by rw [hf.sent])
    dsimp only
    split_ifs with hj
    · obtain ⟨hw, hc, -⟩ := hl.join env rfl hj
      exact ⟨hw, hc⟩
    · replace hj : (f s).joining = none := by simpa using hj
      refine ⟨⟨hl, fun _ t ht => ?_, fun hn t ht => ?_⟩, rfl⟩
      · obtain rfl := Option.some.inj ht
        exact hj
      · obtain rfl := Option.some.inj ht
        exact hf.unclosing s (h.inv s hs) (h.joined hn s hs) (h.unclosing hn s hs) hj

theorem signal_sendCommand_inv {s : Signal} (h : s.Inv) (channel command : String) (data : Json) :
    (s.sendCommand channel command data).Inv ∧
      (s.sendCommand channel command data).joining = s.joining ∧
      (s.sendCommand channel command data).conState = s.conState := by
  unfold Signal.sendCommand
  split_ifs
  · exact ⟨h, rfl, rfl⟩
  · exact ⟨⟨h.thread, h.idle, h.state, h.timer⟩, rfl, rfl⟩
  · exact ⟨h, rfl, rfl⟩

/-- A command is marked as written if the connection has sent it. -/
theorem Linked.sendCommand_sent (h : Linked w) (source : Option ℕ) (channel command : String)
    (data : Json) : (w.sendCommand source channel command data).sent =
      (w.sendCommand source channel command data).written := by
  unfold World.sendCommand
  split
  · exact h.sent
  next s hs =>
    have hw := h.sent
    simp only [World.sent, World.written, hs, Option.elim_some] at hw ⊢
    rw [Signal.sendCommand_sent, List.filter_append, List.filter_append, List.map_append,
      List.filter_append, hw]
    split_ifs <;> simp

theorem Wired.sendCommand (h : Wired w) (source : Option ℕ) (channel command : String)
    (data : Json) : Wired (w.sendCommand source channel command data) ∧
      (w.sendCommand source channel command data).control = w.control := by
  unfold World.sendCommand
  split
  · exact ⟨h, rfl⟩
  next s hs =>
    obtain ⟨hi, hj, hc⟩ := signal_sendCommand_inv (h.inv s hs) channel command data
    refine ⟨⟨⟨h.fault, fun _ => rfl, fun t ht => ?_, ?_⟩, fun hf t ht => ?_, fun hf t ht => ?_⟩, rfl⟩
    · obtain rfl := Option.some.inj ht
      exact hi
    · simpa only [World.sendCommand, hs] using h.sendCommand_sent source channel command data
    · obtain rfl := Option.some.inj ht
      exact hj.trans (h.joined hf s hs)
    · obtain rfl := Option.some.inj ht
      exact hc ▸ h.unclosing hf s hs

/-! ### The public interface -/

theorem Wired.newControl (h : Wired w) :
    Wired (World.newControl { w with signal := some (w.signal.getD .init) }) := by
  have hs : ∀ s, w.signal.getD .init = s → s.Inv ∧
      (w.fault = none → s.joining = none ∧ s.conState ≠ .closing) := by
    rintro _ rfl
    cases hs : w.signal with
    | none => exact ⟨Signal.inv_init, fun _ => ⟨rfl, by simp [Signal.init]⟩⟩
    | some t => exact ⟨h.inv t hs, fun hf => ⟨h.joined hf t hs, h.unclosing hf t hs⟩⟩
  refine ⟨⟨h.fault, fun _ => rfl, fun s hs' => ?_, ?_⟩, fun hf s hs' => ?_, fun hf s hs' => ?_⟩
  · exact (hs s (Option.some.inj hs')).1
  · have hsent := h.sent
    simp only [World.sent, World.written] at hsent ⊢
    rw [show (World.newControl { w with signal := some (w.signal.getD .init) }).commands =
      w.commands from rfl, ← hsent]
    cases w.signal <;> rfl
  · exact ((hs s (Option.some.inj hs')).2 hf).1
  · exact ((hs s (Option.some.inj hs')).2 hf).2

theorem Wired.peerOpen (h : Wired w) : Wired (w.peerOpen env) := by
  unfold World.peerOpen
  split_ifs with hc
  · exact h
  dsimp only
  have hn := h.newControl
  split_ifs
  · have hm : Wired ((World.newControl { w with signal := some (w.signal.getD .init) }).modifyControl
        w.nextControl fun k =>
          { k with thread := true, peerName := env.peerId, userId := env.signalId }) :=
      hn.of_eq rfl rfl rfl rfl
    exact (hm.signalCall env (signalCall_openWith _ _)).1
  · exact ⟨⟨hn.fault, fun hs => (by cases hs), hn.inv, hn.sent⟩, hn.joined, hn.unclosing⟩

theorem Wired.peerClose (h : Wired w) {d : ℕ} (hd : w.control = some d) (peerId : String) :
    Wired (w.peerClose env peerId) ∧ (w.peerClose env peerId).control = some d := by
  unfold World.peerClose
  rw [hd]
  have keeps (id : MessageId) (data : MessageData) (origin : Option ℕ) :
      (w.post d id data origin).control = some d := by
    unfold World.post
    split_ifs <;> exact hd
  dsimp only
  split_ifs
  · have hq : Wired (w.closeQueued d .normal) := h.post d _ _ _
    have hc : (w.closeQueued d .normal).control = some d := keeps _ _ _
    obtain ⟨s, hs⟩ := Option.isSome_iff_exists.mp (hq.signal (by rw [hc]; rfl))
    unfold signalSyncClose
    rw [hs]
    obtain ⟨h1, h2⟩ := hq.signalCall env signalCall_syncClose
    exact ⟨h1, h2.trans hc⟩
  · exact ⟨h.post d _ _ _, keeps _ _ _⟩

theorem Wired.controlSend (env : Env) (h : Wired w) (c : ℕ) (peerId : String)
    (data : List UInt8) (wait : Bool) :
    Wired (w.controlSend env c peerId data wait) ∧
      (w.controlSend env c peerId data wait).control = w.control := by
  rcases controlSend_cases env c peerId data wait w with ⟨handed, returned, he⟩ | ⟨he, -⟩
  · rw [he]
    exact ⟨h.of_eq rfl rfl rfl rfl, rfl⟩
  · rw [he]
    exact ⟨h.toLinked.crash (by simp [Fault.NullDeref]), rfl⟩

/-- With `control_` set, every call finds its pointers and leaves it set. -/
theorem Wired.api (h : Wired w) {d : ℕ} (hd : w.control = some d) (a : Api) :
    Wired (w.api env a) ∧ (w.api env a).control = some d := by
  unfold World.api
  split_ifs
  · exact ⟨h, hd⟩
  cases a with
  | «open» =>
    refine ⟨h.peerOpen, ?_⟩
    simp only [World.peerOpen, hd, Option.isSome_some, if_true]
  | close peerId => exact h.peerClose hd peerId
  | connect peerId =>
    simp only [peerConnect, hd]
    obtain ⟨h1, h2⟩ := h.sendCommand none peerId "joinchannel" (.obj [("name", .str peerId)])
    exact ⟨h1, h2.trans hd⟩
  | send peerId data wait =>
    simp only [peerSend, hd]
    obtain ⟨h1, h2⟩ := h.controlSend env d peerId data wait
    exact ⟨h1, h2.trans hd⟩

theorem Wired.apis (h : Wired w) {d : ℕ} (hd : w.control = some d) (as : List Api) :
    Wired (as.foldl (World.api env) w) ∧ (as.foldl (World.api env) w).control = some d := by
  induction as generalizing w with
  | nil => exact ⟨h, hd⟩
  | cons a as ih =>
    obtain ⟨h1, h2⟩ := h.api hd a
    exact ih h1 h2

/-! ### Events -/

theorem Wired.callEventHandler (env : Env) (h : Wired w) {d : ℕ} (hd : w.control = some d)
    (source : Option ℕ) (e : Event) :
    Wired (w.callEventHandler env source e) ∧
      (w.callEventHandler env source e).control = some d := by
  unfold World.callEventHandler
  split_ifs
  · have h' : Wired { w with obs := w.obs ++ [.handler w.control source e] } := h.of_eq rfl rfl rfl rfl
    exact h'.apis hd _
  · exact ⟨h, hd⟩

theorem Wired.dropControl (h : Wired w) {d : ℕ} (hd : w.control = some d) :
    Wired w.dropControl := by
  unfold World.dropControl
  split_ifs
  · exact h
  · rw [hd]
    exact ⟨⟨h.fault, fun hs => (by cases hs), h.inv, h.sent⟩, h.joined, h.unclosing⟩

/-- The webrtc thread keeps the pointers and the signal connection as they should be. -/
theorem wired_serves (env : Env) : Serves env Wired where
  same h hf hc hs _ hk _ := h.of_eq hf hc hs hk
  crash h1 h2 _ h := h.toLinked.crash fun hn => hn.elim h1 h2
  command source channel _ data _ h := (h.sendCommand source channel _ data).1
  event source e h hd := h.callEventHandler env hd source e
  drop h hd := h.dropControl hd

/-! ### Runs -/

/-- A call other than `Open` is made on a peer that has its control. -/
def Permitted (w : World) : Action → Prop
  | .api a => a = .open ∨ w.control.isSome = true
  | _ => True

theorem Wired.act (h : Wired w) (hw : Reached env w) (hf : w.fault = none) {a : Action}
    (ha : Permitted w a) : Wired (w.act env a) := by
  cases a with
  | api a =>
    rcases ha with rfl | ha
    · simp only [World.act, World.api]
      split_ifs
      · exact h
      · exact h.peerOpen
    · obtain ⟨d, hd⟩ := Option.isSome_iff_exists.mp ha
      exact (h.api hd a).1
  | command message origin =>
    simp only [World.act, signalOnCommandReceived]
    generalize w.subscribed = cs
    clear hw hf ha
    induction cs generalizing w with
    | nil => exact h
    | cons c cs ih => exact ih (h.post c _ _ _)
  | net a =>
    obtain ⟨hl, hs, -⟩ := h.toLinked.net a
    refine ⟨hl, fun _ t ht => ?_, fun _ t ht => ?_⟩
    · rw [show (w.act env (.net a)).signal = _ from hs] at ht
      obtain ⟨s, hs', rfl⟩ := Option.map_eq_some_iff.mp ht
      exact (congrArg Prod.fst (net_userPart s a)).trans (h.joined hf s hs')
    · rw [show (w.act env (.net a)).signal = _ from hs] at ht
      obtain ⟨s, hs', rfl⟩ := Option.map_eq_some_iff.mp ht
      exact net_unclosing (h.unclosing hf s hs') a
  | process => exact (wired_serves env).process h hw.toSound
  | callback x cb => exact (wired_serves env).callback h hw x cb

/-- The calls of the user are permitted, as long as nothing has crashed. -/
def PermittedStep (w : World) (a : Action) : Prop := w.fault = none → Permitted w a

theorem Wired.step (h : Wired w) (hw : Reached env w) {a : Action} (ha : PermittedStep w a) :
    Wired (w.step env a) := by
  unfold World.step
  split_ifs with hf
  · exact h
  · have hn : w.fault = none := by simpa using hf
    exact (h.act hw hn (ha hn)).of_eq rfl rfl rfl rfl

theorem Wired.along {P : World → Prop} {as : List Action}
    (ha : Along (World.step env) PermittedStep init as)
    (hP : ∀ w, Reached env w → Wired w → P w) : P (run (World.step env) init as) := by
  have hstep : ∀ w a, Reached env w ∧ Wired w → PermittedStep w a →
      Reached env (w.step env a) ∧ Wired (w.step env a) :=
    fun w a h ha => ⟨h.1.step a, h.2.step h.1 ha⟩
  obtain ⟨hw, h⟩ := ha.invariant hstep ⟨reached_init env, wired_init⟩
  exact hP _ hw h

/-! ### Safety of the interface -/

theorem step_null (hf : w.fault = none) (hc : w.control = none) {a : Api} (ha : a ≠ .open) :
    (w.step env (.api a)).fault = some .nullControl := by
  have h : (w.api env a).fault = some .nullControl := by
    cases a with
    | «open» => exact absurd rfl ha
    | close peerId => simp [World.api, hf, World.peerClose, hc, World.crash]
    | connect peerId => simp [World.api, hf, peerConnect, hc, World.crash]
    | send peerId data wait => simp [World.api, hf, peerSend, hc, World.crash]
  unfold World.step
  rw [if_neg (by simp [hf])]
  exact h

/-- What a step of a running program may be relied on: it dereferences neither
pointer, and on a peer without a control `Close` changes nothing and a synchronous
`Send` returns false. -/
structure SafeStep (env : Env) (w : World) (a : Action) : Prop where
  deref : w.fault = none → ∀ f, (w.step env a).fault = some f → ¬ Fault.NullDeref f
  close : w.fault = none → w.control = none → ∀ id, a = .api (.close id) → w.step env a = w
  send : w.fault = none → w.control = none → ∀ id data, a = .api (.send id data true) →
    (w.step env a).returned = w.returned ++ [false]

theorem SafeStep.permitted {a : Action} (h : SafeStep env w a) : PermittedStep w a := by
  intro hf
  cases a with
  | api a =>
    by_contra hn
    simp only [Permitted, not_or, Bool.not_eq_true, Option.isSome_eq_false_iff,
      Option.isNone_iff_eq_none] at hn
    exact h.deref hf _ (step_null hf hn.2 hn.1) (Or.inl rfl)
  | _ => trivial

theorem PermittedStep.control {a : Api} (h : PermittedStep w (.api a)) (ha : a ≠ .open)
    (hf : w.fault = none) : w.control ≠ none := by
  intro hc
  rcases h hf with h | h
  · exact ha h
  · rw [hc] at h
    cases h

theorem PermittedStep.safe {a : Action} (ha : PermittedStep w a) (hw : Reached env w)
    (h : Wired w) : SafeStep env w a where
  deref _ := (h.step hw ha).fault
  close hf hc id hid := by
    subst hid
    exact absurd hc (ha.control (by simp) hf)
  send hf hc id data hid := by
    subst hid
    exact absurd hc (ha.control (by simp) hf)

/-- A run is safe exactly when `Close`, `Connect` and `Send` are called on a peer
that has its control, from outside the handlers; handlers may call anything. -/
theorem api_safe_iff (env : Env) (as : List Action) :
    Along (World.step env) (SafeStep env) init as ↔
      Along (World.step env) PermittedStep init as := by
  constructor
  · exact Along.mono fun w a h => h.permitted
  · refine Along.mono_of_invariant (P := fun w => Reached env w ∧ Wired w) ?_
      ⟨reached_init env, wired_init⟩
    rintro w a ⟨hw, h⟩ ha
    exact ⟨ha.safe hw h, hw.step a, h.step hw ha⟩

/-- The first call is `Close`. -/
theorem closedBeforeOpen_unsafe : ¬ Along (World.step (.idle "a" (by decide)))
    (SafeStep (.idle "a" (by decide))) init [.api (.close "")] := by
  intro h
  have hn : (init.step (.idle "a" (by decide)) (.api (.close ""))).fault = some .nullControl :=
    step_null rfl rfl (by simp)
  exact h.1.deref rfl _ hn (Or.inl rfl)

end World

end PeerApi
