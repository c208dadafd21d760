import PeerApi.Signal.Close
import PeerApi.Session.World

/-! The report of a lost signal connection. Two layers look at the close code:
`Signal` says nothing of a connection that ended with the normal code, which is
also what `OnClose` assumes when the connection of the handle cannot be found, and
`Control` queues the local close for every other code. So the loss is reported
exactly when the libraries give a code other than the normal one. -/

namespace PeerApi.Signal

/-- A call by which the user closes the connection. -/
def Action.closes : Action → Bool
  | .close => true
  | .syncClose => true
  | _ => false

/-- After the run, the handler ends a connection that the user has not closed
since it opened, or an attempt after which no reconnect timer is armed. -/
def Lost (as : List Action) : NetAction → Prop
  | .onClose k _ =>
    (∃ pre mid, as = pre ++ .net (.onOpen k) :: mid ∧
      k ∈ (Base.run Signal.step init pre).attempts ∧ ∀ b ∈ mid, b.closes = false) ∧
    k ∈ (Base.run Signal.step init as).live
  | .onFail k code =>
    k ∈ (Base.run Signal.step init as).attempts ∧
    ((Base.run Signal.step init as).net (.onFail k code)).1.pendingWaits = 0
  | _ => False

/-- `SignalOnClosed_` was emitted once, with a code for which every control queues
its local close. -/
def Reported (codes : List CloseStatus) : Prop :=
  ∃ code, codes = [code] ∧ ∀ (w : World) (c : ℕ), (w.controls c).thread = true →
    (w.onSignalConnectionClosed code c).queue =
      w.queue ++ [⟨c, .onSignalConnectionClose,
        { dataInt32 := some .signalError, ref := (w.controls c).ref }, none⟩]

/-- The code that the library gives is not the normal one; `OnClose` takes a
missing code for the normal one, `OnFail` does not. -/
def NetAction.Abnormal : NetAction → Prop
  | .onClose _ code => code ≠ none ∧ code ≠ some .normal
  | .onFail _ code => code ≠ some .normal
  | _ => False

theorem not_reported_nil : ¬ Reported [] := by
  rintro ⟨code, hcode, -⟩
  simp at hcode

/-- A single code is a report exactly when it is not the normal one. -/
theorem reported_singleton (code : CloseStatus) : Reported [code] ↔ code ≠ .normal := by
  constructor
  · rintro ⟨code', hcode, hpost⟩ hn
    have hc : code = code' := by simpa using hcode
    subst hc
    -- a world with a threaded control, in which the normal code posts nothing
    have := hpost (World.init.modifyControl 0 fun k => { k with thread := true }) 0
      (by simp [World.modifyControl])
    simp [World.onSignalConnectionClosed, hn, World.modifyControl, World.init] at this
  · intro hn
    refine ⟨code, rfl, fun w c ht => ?_⟩
    simp [World.onSignalConnectionClosed, hn, World.post, ht]

/-! ### The two handlers -/

theorem onClose_reported_iff (s : Signal) (k : ℕ) (code : Option CloseStatus) :
    Reported (s.onClose k code).2 ↔ code ≠ none ∧ code ≠ some .normal := by
  unfold Signal.onClose
  dsimp only
  cases code with
  | none => simpa using not_reported_nil
  | some code =>
    by_cases hn : code = .normal
    · simpa [hn] using not_reported_nil
    · simpa [hn] using (reported_singleton code).mpr hn

/-- An `OnFail` that arms no timer has used up the attempts. -/
theorem onFail_exhausted {s : Signal} {k : ℕ} {code : Option CloseStatus}
    (h : (s.onFail k code).1.pendingWaits = 0) : ¬ s.reconnMade < s.reconnAttempts := by
  intro hlt
  simp only [Signal.onFail, if_pos hlt, pendingWaits, List.countP_append, List.countP_singleton,
    Wait.pending, if_true] at h
  omega

theorem onFail_reported_iff {s : Signal} {k : ℕ} {code : Option CloseStatus}
    (h : ¬ s.reconnMade < s.reconnAttempts) :
    Reported (s.onFail k code).2 ↔ code ≠ some .normal := by
  simp only [Signal.onFail, if_neg h]
  rw [reported_singleton]
  cases code with
  | none => simp [CloseStatus.abnormalClose, CloseStatus.normal]
  | some code => simp

/-- In every run of the signal connection, a loss is reported exactly when the
library gives a close code other than the normal one. -/
theorem loss_reported_iff (as : List Action) (a : NetAction) (h : Lost as a) :
    Reported ((Base.run Signal.step init as).net a).2 ↔ a.Abnormal := by
  have hi := inv_run as
  generalize hs : Base.run Signal.step init as = s at hi
  cases a with
  | onClose k code =>
    obtain ⟨-, hk⟩ := h
    rw [hs] at hk
    have hr : s.running = true := hi.running (by simp [drained, List.ne_nil_of_mem hk])
    simp only [Signal.net, hr, if_true, hk]
    exact onClose_reported_iff s k code
  | onFail k code =>
    obtain ⟨hk, hw⟩ := h
    rw [hs] at hk hw
    have hr : s.running = true := hi.running (by simp [drained, List.ne_nil_of_mem hk])
    simp only [Signal.net, hr, if_true, hk] at hw ⊢
    exact onFail_reported_iff (onFail_exhausted hw)
  | _ => exact h.elim

/-- The connection of these runs is open. -/
def connectedOnce : List Action :=
  [.openWith "u" "p", .net (.connectInternal true), .net (.onOpen 0)]

theorem lost_connectedOnce (code : Option CloseStatus) : Lost connectedOnce (.onClose 0 code) :=
  ⟨⟨[.openWith "u" "p", .net (.connectInternal true)], [], rfl, by decide, by simp⟩, by decide⟩

/-- The server goes away. -/
theorem loss_reported_goingAway : Lost connectedOnce (.onClose 0 (some 1001)) ∧
    Reported ((Base.run Signal.step init connectedOnce).net (.onClose 0 (some 1001))).2 :=
  ⟨lost_connectedOnce _, (loss_reported_iff connectedOnce (.onClose 0 (some 1001))
    (lost_connectedOnce _)).mpr ⟨by decide, by decide⟩⟩

/-- The server closes with the normal code, which this side echoes. -/
theorem normalClose_not_reported : Lost connectedOnce (.onClose 0 (some .normal)) ∧
    ¬ Reported ((Base.run Signal.step init connectedOnce).net (.onClose 0 (some .normal))).2 := by
  refine ⟨lost_connectedOnce _, ?_⟩
  have hn : ((Base.run Signal.step init connectedOnce).net (.onClose 0 (some .normal))).2 = [] := by
    decide
  rw [hn]
  exact not_reported_nil

end PeerApi.Signal
