import PeerApi.Session.MemorySafety

/-! Joins that end. On the webrtc thread only a handler of the user waits for the network
thread, and only to close the connection: `Open` does nothing while the control is
installed. After one such join the connection is closed, so that no handler of the same
step waits for another. Provided that the network thread ends once it has been asked to
close its connection, and that no `Open` has failed, every careful step of the webrtc
thread runs to its end, and the close of a control with it. -/

namespace PeerApi

/-- The connection without the log of what was sent on it. -/
def Signal.unsent (s : Signal) : Signal := { s with sent := [] }

namespace World

open Base

variable {env : Env} {w w' : World}

/-! ### The log decides nothing -/

theorem sendCommand_unsent (channel command : String) (data : Json) (s : Signal) :
    (s.sendCommand channel command data).unsent = s.unsent := by
  unfold Signal.sendCommand
  split_ifs <;> rfl

theorem onFail_unsent (k : ℕ) (code : Option CloseStatus) (s : Signal) :
    (s.onFail k code).1.unsent = (s.unsent.onFail k code).1.unsent := by
  unfold Signal.onFail
  by_cases h : s.reconnMade < s.reconnAttempts <;> simp [Signal.unsent, h, Signal.nextDelay]

theorem timeoutReconnect_unsent (s : Signal) :
    s.timeoutReconnect.unsent = s.unsent.timeoutReconnect := by
  unfold Signal.timeoutReconnect
  by_cases h : s.conState = .closed <;> simp [Signal.unsent, h]

theorem closeInternal_unsent (s : Signal) : s.closeInternal.unsent = s.unsent.closeInternal := by
  cases hk : s.conHdl with
  | none =>
    cases ht : s.reconnTimer <;>
      simp [Signal.closeInternal, Signal.cancelTimer, Signal.unsent, hk, ht]
  | some k =>
    cases ht : s.reconnTimer <;> by_cases hl : k ∈ s.live <;>
      simp [Signal.closeInternal, Signal.cancelTimer, Signal.unsent, hk, ht, hl,
        Signal.hdlExpired]

theorem net_unsent (s : Signal) (a : Signal.NetAction) :
    (s.net a).1.unsent = (s.unsent.net a).1.unsent := by
  unfold Signal.net
  by_cases hr : s.running = true
  swap
  · rw [if_neg hr, if_neg (show ¬ s.unsent.running = true from hr)]
    rfl
  rw [if_pos hr, if_pos (show s.unsent.running = true from hr)]
  cases a with
  | connectInternal ok =>
    by_cases hc : 0 < s.connects <;> cases ok <;> simp [Signal.connectInternal, Signal.unsent, hc]
  | closeInternal =>
    by_cases hc : s.closes = []
    · simp [Signal.unsent, hc]
    · dsimp only
      rw [if_neg hc, if_neg (show s.unsent.closes ≠ [] from hc), closeInternal_unsent,
        closeInternal_unsent]
      rfl
  | onOpen k =>
    by_cases hk : k ∈ s.attempts
    · dsimp only
      rw [if_pos hk, if_pos (show k ∈ s.unsent.attempts from hk)]
      unfold Signal.onOpen Signal.sendOpenCommand
      rw [sendCommand_unsent, sendCommand_unsent]
      rfl
    · simp [Signal.unsent, hk]
  | onFail k code =>
    by_cases hk : k ∈ s.attempts
    · dsimp only
      rw [if_pos hk, if_pos (show k ∈ s.unsent.attempts from hk), onFail_unsent]
    · simp [Signal.unsent, hk]
  | onClose k code =>
    by_cases hk : k ∈ s.live <;> simp [Signal.unsent, hk, Signal.onClose]
  | expire i =>
    dsimp only
    rw [show s.unsent.waits[i]? = s.waits[i]? from rfl]
    cases s.waits[i]? with
    | none => rfl
    | some wait => cases wait <;> rfl
  | timeoutReconnect i =>
    dsimp only
    rw [show s.unsent.waits[i]? = s.waits[i]? from rfl]
    cases s.waits[i]? with
    | none => rfl
    | some wait =>
      cases wait with
      | expired =>
        dsimp only
        rw [timeoutReconnect_unsent, timeoutReconnect_unsent]
        rfl
      | _ => rfl
  | exit =>
    by_cases hd : s.drained = true
    · dsimp only
      rw [if_pos hd, if_pos (show s.unsent.drained = true from hd)]
      rfl
    · dsimp only
      rw [if_neg hd, if_neg (show ¬ s.unsent.drained = true from hd)]
      rfl

theorem netRun_unsent {s t : Signal} (h : s.unsent = t.unsent) (as : List Signal.NetAction) :
    (netRun as s).unsent = (netRun as t).unsent := by
  induction as generalizing s t with
  | nil => exact h
  | cons a as ih => exact ih (by rw [net_unsent s, net_unsent t, h])

theorem syncClose_unsent (s : Signal) : s.syncClose.unsent = s.unsent.syncClose := by
  have ho : s.unsent.opened = s.opened := rfl
  unfold Signal.syncClose Signal.close
  rw [ho]
  cases s.opened <;> rfl

/-! ### Waiting for a close -/

/-- If the open connection is closed now and its thread joined, that thread ends. -/
def CloseEnds (env : Env) (w : World) : Prop :=
  ∀ s ∈ w.signal, s.opened = true → (netRun (env.join w.joins) s.syncClose).running = false

instance (env : Env) (w : World) : Decidable (CloseEnds env w) :=
  inferInstanceAs (Decidable (∀ s ∈ w.signal, s.opened = true →
    (netRun (env.join w.joins) s.syncClose).running = false))

/-- Nothing has waited for ever, and a close of the connection would not. -/
structure Unblocked (env : Env) (w : World) : Prop extends Wired w where
  free : ∀ s ∈ w.signal, s.joining = none
  ends : CloseEnds env w
  returned : w.fault ≠ some .deadlock

theorem Unblocked.of_eq (h : Unblocked env w) (hw : Wired w') (hs : w'.signal = w.signal)
    (hj : w'.joins = w.joins) (hf : w'.fault ≠ some .deadlock) : Unblocked env w' := by
  refine ⟨hw, fun s hs' => h.free s (hs ▸ hs'), fun s hs' => ?_, hf⟩
  rw [hj]
  exact h.ends s (hs ▸ hs')

theorem Unblocked.crash (h : Unblocked env w) {f : Fault} (hn : ¬ f.NullDeref)
    (hf : f ≠ .deadlock) : Unblocked env (w.crash f) :=
  h.of_eq (h.toLinked.crash hn) rfl rfl fun he => hf (Option.some.inj he)

theorem post_returned (hf : w.fault ≠ some .deadlock) (c : ℕ) (id : MessageId)
    (data : MessageData) (origin : Option ℕ) :
    (w.post c id data origin).fault ≠ some .deadlock := by
  unfold World.post
  split_ifs
  · exact hf
  · simp [World.crash]

theorem Unblocked.post (h : Unblocked env w) (c : ℕ) (id : MessageId) (data : MessageData)
    (origin : Option ℕ) : Unblocked env (w.post c id data origin) := by
  have hf := post_returned h.returned c id data origin
  have hw := h.toWired.post c id data origin
  unfold World.post at hf hw ⊢
  split_ifs at hf hw ⊢ <;> exact h.of_eq hw rfl rfl hf

theorem net_returned (hf : w.fault ≠ some .deadlock) (a : Signal.NetAction) :
    (w.net a).fault ≠ some .deadlock := by
  unfold World.net
  cases w.signal with
  | none => exact hf
  | some s =>
    refine List.foldlRecOn (motive := fun w : World => w.fault ≠ some .deadlock) (s.net a).2 _
      hf fun w hf code _ => ?_
    refine List.foldlRecOn (motive := fun w : World => w.fault ≠ some .deadlock) w.subscribed _
      hf fun w hf c _ => ?_
    unfold onSignalConnectionClosed
    split_ifs
    · exact post_returned hf _ _ _ _
    · exact hf

theorem joined_syncClose {s : Signal} (hj : s.joining = some .syncClose) :
    s.joined.joining = none ∧ s.joined.opened = s.opened := by
  rw [Signal.joined, hj]
  exact ⟨rfl, rfl⟩

/-- The join of a thread that ends returns. -/
theorem join_returned (h : Linked w) {s : Signal} (hs : w.signal = some s)
    (hf : w.fault ≠ some .deadlock) (hr : (netRun (env.join w.joins) s).running = false) :
    (w.join env).fault ≠ some .deadlock ∧
      (w.join env).signal = some (netRun (env.join w.joins) s).joined := by
  have h₀ : Linked { w with joins := w.joins + 1 } := h.of_eq rfl rfl rfl rfl
  obtain ⟨-, hsig, -⟩ := h₀.nets (env.join w.joins)
  replace hsig : ((env.join w.joins).foldl World.net { w with joins := w.joins + 1 }).signal =
      some (netRun (env.join w.joins) s) := by
    rw [hsig, hs]
    rfl
  have hnet : ((env.join w.joins).foldl World.net { w with joins := w.joins + 1 }).fault ≠
      some .deadlock :=
    List.foldlRecOn (motive := fun w : World => w.fault ≠ some .deadlock) (env.join w.joins) _
      hf fun w hf a _ => net_returned hf a
  unfold World.join
  simp only [hsig, hr, Bool.false_eq_true, if_false, and_true]
  exact hnet

/-- Afterwards the connection is closed: there is nothing more to wait for. -/
theorem Unblocked.signalSyncClose (h : Unblocked env w) {s : Signal} (hs : w.signal = some s) :
    Unblocked env (w.signalSyncClose env) := by
  have hw := (h.toWired.signalCall env signalCall_syncClose).1
  have he : w.signalSyncClose env = w.signalCall env (·.syncClose) := by
    simp only [World.signalSyncClose, hs]
  rw [he]
  by_cases ho : s.opened = true
  · have hinv := h.inv s hs
    have hj : s.syncClose.joining = some .syncClose := by
      simp [Signal.syncClose, ho, thread_of_opened hinv ho]
    have hl : Linked { w with signal := some s.syncClose } :=
      h.goes hs hinv.syncClose (by rw [signalCall_syncClose.sent])
    have hrun := h.ends s hs ho
    rw [signalCall_joins hs (by rw [hj]; rfl)] at hw ⊢
    obtain ⟨hf, hsig⟩ := join_returned hl rfl h.returned hrun
    have hclosed := opened_of_stopped (netRun_inv hinv.syncClose (env.join w.joins)) hrun
    obtain ⟨hfree, hopened⟩ := joined_syncClose ((netRun_joining (env.join w.joins) _).trans hj)
    refine ⟨hw, fun t ht => ?_, fun t ht ho' => ?_, hf⟩
    · obtain rfl := Option.some.inj (hsig.symm.trans ht)
      exact hfree
    · obtain rfl := Option.some.inj (hsig.symm.trans ht)
      cases (hopened.trans hclosed).symm.trans ho'
  · have hidle : w.signalCall env (·.syncClose) = w := by
      have hsync : s.syncClose = s := if_neg ho
      simp only [World.signalCall, hs, hsync, h.free s hs, Option.isSome_none,
        Bool.false_eq_true, if_false]
      rw [← hs]
    rwa [hidle]

/-! ### Handlers that wait -/

theorem Unblocked.peerClose (h : Unblocked env w) {d : ℕ} (hd : w.control = some d)
    (peerId : String) : Unblocked env (w.peerClose env peerId) := by
  unfold World.peerClose
  rw [hd]
  dsimp only
  split_ifs
  · have hq : Unblocked env (w.closeQueued d .normal) := h.post d _ _ _
    have hd' : (w.closeQueued d .normal).control = some d := by
      unfold World.closeQueued World.post
      split_ifs <;> exact hd
    obtain ⟨s, hs⟩ := Option.isSome_iff_exists.mp (hq.signal (by rw [hd']; rfl))
    exact hq.signalSyncClose hs
  · exact h.post d _ _ _

theorem Unblocked.sendCommand (h : Unblocked env w) (source : Option ℕ) (channel command : String)
    (data : Json) : Unblocked env (w.sendCommand source channel command data) := by
  have hw := (h.toWired.sendCommand source channel command data).1
  cases hs : w.signal with
  | none =>
    simp only [World.sendCommand, hs]
    exact h
  | some s =>
    simp only [World.sendCommand, hs] at hw ⊢
    obtain ⟨-, hj, -⟩ := signal_sendCommand_inv (h.inv s hs) channel command data
    have hu := sendCommand_unsent channel command data s
    refine ⟨hw, fun t ht => ?_, fun t ht ho => ?_, h.returned⟩
    · obtain rfl := Option.some.inj ht
      exact hj.trans (h.free s hs)
    · obtain rfl := Option.some.inj ht
      rw [Signal.sendCommand_opened] at ho
      have hsync : (s.sendCommand channel command data).syncClose.unsent = s.syncClose.unsent := by
        rw [syncClose_unsent, syncClose_unsent, hu]
      have hrun := congrArg Signal.running (netRun_unsent hsync (env.join w.joins))
      exact hrun.trans (h.ends s hs ho)

theorem Unblocked.api (h : Unblocked env w) {d : ℕ} (hd : w.control = some d) (a : Api) :
    Unblocked env (w.api env a) := by
  unfold World.api
  split_ifs
  · exact h
  cases a with
  | «open» =>
    dsimp only [World.peerOpen]
    rwa [if_pos (by rw [hd]; rfl)]
  | close peerId => exact h.peerClose hd peerId
  | connect peerId =>
    simp only [peerConnect, hd]
    exact h.sendCommand none peerId "joinchannel" (.obj [("name", .str peerId)])
  | send peerId data wait =>
    simp only [peerSend, hd]
    rcases controlSend_cases env d peerId data wait w with ⟨handed, returned, he⟩ | ⟨he, -⟩
    · rw [he]
      exact h.of_eq (h.toWired.of_eq rfl rfl rfl rfl) rfl rfl h.returned
    · rw [he]
      exact h.crash (by simp [Fault.NullDeref]) (by simp)

theorem Unblocked.callEventHandler (h : Unblocked env w) {d : ℕ} (hd : w.control = some d)
    (source : Option ℕ) (e : Event) : Unblocked env (w.callEventHandler env source e) := by
  unfold World.callEventHandler
  split_ifs
  · have h' : Unblocked env { w with obs := w.obs ++ [.handler w.control source e] } :=
      h.of_eq (h.toWired.of_eq rfl rfl rfl rfl) rfl rfl h.returned
    refine (List.foldlRecOn (motive := fun w' => Unblocked env w' ∧ w'.control = some d) _ _
      ⟨h', hd⟩ fun w' hw' a _ => ?_).1
    exact ⟨hw'.1.api hw'.2 a, (hw'.1.toWired.api hw'.2 a).2⟩
  · exact h

theorem unblocked_serves (env : Env) : Serves env (Unblocked env) where
  same h hf hc hs hj hk _ := h.of_eq (h.toWired.of_eq hf hc hs hk) hs hj (hf ▸ h.returned)
  crash h1 h2 h3 h := h.crash (fun hn => hn.elim h1 h2) h3
  command source channel _ data _ h := h.sendCommand source channel _ data
  event source e h hd :=
    ⟨h.callEventHandler hd source e, (h.toWired.callEventHandler env hd source e).2⟩
  drop {w d} h hd := by
    have hw := h.toWired.dropControl hd
    unfold World.dropControl at hw ⊢
    split_ifs at hw ⊢
    · exact h
    · simp only [hd] at hw ⊢
      exact h.of_eq hw rfl rfl h.returned

/-! ### Steps that run to their end -/

theorem Safe.unblocked (h : Safe env w) (running : w.fault = none) (ends : CloseEnds env w) :
    Unblocked env w :=
  ⟨h.wired, fun s hs => h.wired.joined running s hs, ends, by simp [running]⟩

/-- A careful step of the webrtc thread does not crash. -/
theorem Safe.completes (h : Safe env w) (made : ∀ c, env.createPeerFactory c = true)
    (running : w.fault = none) (ends : CloseEnds env w) {a : Action} (ha : a.Serving)
    (careful : Careful env w a) : (w.step env a).fault = none := by
  have hstep : Safe env (w.step env a) := h.step made fun _ => careful
  have hserved := (unblocked_serves env).step (h.unblocked running ends) h.reached ha
  exact hstep.fault.resolve_right hserved.returned

/-- A run that has not crashed was careful. -/
theorem Safe.run (h : Safe env w) (made : ∀ c, env.createPeerFactory c = true) {as : List Action}
    (hf : (run (World.step env) w as).fault = none) : Safe env (run (World.step env) w as) := by
  induction as generalizing w with
  | nil => exact h
  | cons a as ih =>
    rw [run_cons] at hf ⊢
    have running : (w.step env a).fault = none := by
      by_contra hn
      rw [run_crashed hn] at hf
      exact hn hf
    exact ih (h.step made fun hn => careful_of_fault h.reached hn (Or.inl running)) hf

/-- The close of a control runs to its end, whatever calls the handlers make: all that it
takes is that no `Open` has failed and that the network thread ends once its connection
is closed. -/
theorem close_uninterrupted (made : ∀ c, env.createPeerFactory c = true) {as : List Action}
    (hf : (run (World.step env) init as).fault = none)
    (ends : CloseEnds env (run (World.step env) init as)) {m : Message} {code : CloseCode}
    (hm : (run (World.step env) init as).queue.head? = some m) (hcode : ClosesAll code m) :
    ¬ Interrupted ((run (World.step env) init as).step env .process) := by
  have careful : Careful env (run (World.step env) init as) .process := by
    intro m' hm' hs
    obtain rfl : m = m' := Option.some.inj (hm.symm.trans hm')
    obtain ⟨hid | hid, -⟩ := hcode
    · simp [speaks, hid] at hs
    · simp [speaks, hid] at hs
  have completes := ((safe_init env).run made hf).completes made hf ends
    (show Action.Serving .process from trivial) careful
  simp [Interrupted, completes]

/-- Then it is complete and ordered. -/
theorem closes_down (made : ∀ c, env.createPeerFactory c = true) {as : List Action}
    (ha : Along (World.step env) (NamesOthers env) init as)
    (hf : (run (World.step env) init as).fault = none)
    (ends : CloseEnds env (run (World.step env) init as)) {m : Message} {code : CloseCode}
    (hm : (run (World.step env) init as).queue.head? = some m) (hcode : ClosesAll code m)
    (hset : ((run (World.step env) init as).controls m.handler).observer = true) :
    ClosesDown env (run (World.step env) init as) m.handler code .process := by
  obtain ⟨queue, hq⟩ := List.head?_eq_some_iff.mp hm
  exact closesDown_of_message (reached_run env as) (wired_of_running hf) (standing_run env as) hf
    hq hcode hset (no_local_entry ha m.handler) (close_uninterrupted made hf ends hm hcode)

/-- The close was asked for while the connection was being made and is served when it is
open: it is then a handler of the local close that closes the connection, and waits. -/
example :
    let w := run (World.step reentrant) init
      [.api .open, .net (.connectInternal true), .api (.close ""), .net (.onOpen 0)]
    (w.signal.any (·.opened) = true ∧ CloseEnds reentrant w) ∧
      (w.step reentrant .process).joins = w.joins + 1 := by decide +kernel

end World

end PeerApi
