import PeerApi.Websocket.Moves
import PeerApi.Base.Run

/-! The course of a connection, whatever its user and its peer do: it sends and is told
things while it is open, then come close frames and nothing else, of which only the first
is not an acknowledgement, and the last thing its user hears is that it is closed, once. -/

namespace PeerApi.Websocket

open Base

/-- What is queued or told while a connection is open. -/
def Obs.isActive : Obs → Bool
  | sent _ _ => true
  | pinged _ => true
  | ponged _ => true
  | message _ => true
  | ping _ => true
  | pong _ => true
  | closing _ _ _ => false
  | closed => false
  | failed => false

def Obs.isClosing : Obs → Bool
  | closing _ _ _ => true
  | _ => false

def Obs.isAck : Obs → Bool
  | closing _ _ ack => ack
  | _ => false

namespace Connection

/-- How far a connection has come. -/
inductive Course : SessionState → List TerminateStatus → List Obs → Prop
  | open {pre : List Obs} (hpre : ∀ o ∈ pre, o.isActive) : Course .open [] pre
  | closing {pre acks : List Obs} {o : Obs} (hpre : ∀ o ∈ pre, o.isActive) (ho : o.isClosing)
      (hacks : ∀ o ∈ acks, o.isAck) : Course .closing [] (pre ++ o :: acks)
  | closed {pre mid : List Obs} (hpre : ∀ o ∈ pre, o.isActive) (hmid : ∀ o ∈ mid, o.isClosing)
      (hacks : ∀ o ∈ mid.tail, o.isAck) : Course .closed [.closed] (pre ++ mid)
  | ended {pre mid : List Obs} (hpre : ∀ o ∈ pre, o.isActive) (hmid : ∀ o ∈ mid, o.isClosing)
      (hacks : ∀ o ∈ mid.tail, o.isAck) : Course .closed [] (pre ++ mid ++ [.closed])

theorem isClosing_of_isAck {o : Obs} (h : o.isAck) : o.isClosing := by
  cases o with
  | closing code reason ack => rfl
  | _ => cases h

theorem Queued.isActive {p : Hybi13} {o : Obs} {msg : Message} (h : Queued p o msg) :
    o.isActive := by
  cases h with
  | sent => rfl
  | pinged => rfl
  | ponged => rfl

theorem Notices.isActive {m : Message} {o : Obs} (h : Notices m o) : o.isActive := by
  cases h with
  | message => rfl
  | ping => rfl
  | pong => rfl

variable {u : User} {src : Option Message} {c c' : Connection}

theorem forall_append_singleton {q : Obs → Bool} {os : List Obs} {o : Obs}
    (h : ∀ o ∈ os, q o) (ho : q o) : ∀ o' ∈ os ++ [o], q o' := by
  intro o' ho'
  rcases List.mem_append.mp ho' with hmem | hmem
  · exact h o' hmem
  · rw [List.mem_singleton.mp hmem]
    exact ho

theorem Course.active (h : Course c.state c.shutdowns c.obs) (hopen : c.state = .open) {o : Obs}
    (ho : o.isActive) : Course c.state c.shutdowns (c.obs ++ [o]) := by
  generalize c.shutdowns = ts, c.obs = os at *
  rw [hopen] at h ⊢
  cases h with
  | «open» hpre => exact .open (forall_append_singleton hpre ho)

theorem Course.close {code : CloseStatus} {reason : List UInt8} {ack : Bool}
    (h : Course c.state c.shutdowns c.obs) (hstate : c.state = .open ∨ c.state = .closing ∧ ack) :
    Course .closing c.shutdowns (c.obs ++ [.closing code reason ack]) := by
  generalize c.shutdowns = ts, c.obs = os at *
  rcases hstate with hopen | ⟨hclosing, hack⟩
  · rw [hopen] at h
    cases h with
    | «open» hpre => exact .closing hpre rfl fun o ho => (by cases ho)
  · rw [hclosing] at h
    cases h with
    | closing hpre ho hacks =>
      rw [List.append_assoc, List.cons_append]
      exact .closing hpre ho (forall_append_singleton hacks hack)

theorem Course.terminate (h : Course c.state c.shutdowns c.obs) (hstate : c.state ≠ .closed) :
    c.state ≠ .connecting ∧ Course .closed (c.shutdowns ++ [.closed]) c.obs := by
  generalize c.state = s, c.shutdowns = ts, c.obs = os at *
  cases h with
  | «open» hpre =>
    refine ⟨by decide, ?_⟩
    have hclosed : Course .closed [.closed] (os ++ []) :=
      .closed hpre (fun o ho => (by cases ho)) fun o ho => (by cases ho)
    rwa [List.append_nil] at hclosed
  | @closing pre acks o hpre ho hacks =>
    refine ⟨by decide, .closed hpre (fun o' ho' => ?_) hacks⟩
    rcases List.mem_cons.mp ho' with rfl | hmem
    · exact ho
    · exact isClosing_of_isAck (hacks o' hmem)
  | closed => exact absurd rfl hstate
  | ended => exact absurd rfl hstate

theorem Course.announce {tstat : TerminateStatus} {rest : List TerminateStatus} {o : Option Obs}
    (h : Course c.state c.shutdowns c.obs) (hs : c.shutdowns = tstat :: rest)
    (ho : o = none ∧ tstat ≠ .closed ∨ o = some .failed ∧ tstat = .failed ∨
      o = some .closed ∧ tstat = .closed) : Course c.state rest (c.obs ++ o.toList) := by
  generalize c.state = s, c.obs = os at *
  rw [hs] at h
  cases h with
  | closed hpre hmid hacks =>
    rcases ho with ⟨-, hne⟩ | ⟨-, he⟩ | ⟨rfl, -⟩
    · exact absurd rfl hne
    · cases he
    · exact .ended hpre hmid hacks

theorem Move.course (h : Move src c c') (hc : Course c.state c.shutdowns c.obs) :
    Course c'.state c'.shutdowns c'.obs := by
  cases h with
  | still h => rwa [h.state, h.shutdowns, h.obs]
  | queued hopen h =>
    rw [state_queue, shutdowns_queue, obs_queue]
    exact hc.active hopen h.isActive
  | closing hstate =>
    rw [state_queue, shutdowns_queue, obs_queue]
    exact hc.close hstate
  | noticed hopen _ h => exact hc.active hopen h.isActive
  | cleaned => exact hc
  | terminated hstate h =>
    obtain ⟨hne, hclosed⟩ := hc.terminate hstate
    rw [h, if_neg hne]
    exact hclosed
  | announced hs h => exact hc.announce hs h

theorem Moves.course (h : Moves src c c') (hc : Course c.state c.shutdowns c.obs) :
    Course c'.state c'.shutdowns c'.obs := by
  induction h with
  | refl => exact hc
  | tail _ h ih => exact h.course ih

theorem start_tidy (isServer : Bool) (maxMessageSize : ℕ) : (start isServer maxMessageSize).Tidy :=
  ⟨fun h => (by cases h), fun _ => rfl⟩

theorem run_course (u : User) (isServer : Bool) (maxMessageSize : ℕ) (as : List Action) :
    let c := run (step u) (start isServer maxMessageSize) as
    Course c.state c.shutdowns c.obs := by
  have h : ∀ c : Connection, (c.Tidy ∧ Course c.state c.shutdowns c.obs) → ∀ a,
      (c.step u a).Tidy ∧ Course (c.step u a).state (c.step u a).shutdowns (c.step u a).obs := by
    rintro c ⟨ht, hc⟩ a
    exact ⟨step_tidy u ht a, step_invariant Moves.course id ht hc a⟩
  exact (run_invariant (fun c a hc => h c hc a)
    ⟨start_tidy isServer maxMessageSize, .open fun o ho => (by cases ho)⟩ as).2

end Connection

end PeerApi.Websocket
