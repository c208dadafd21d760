import PeerApi.Session.Moves

/-! The operations of `Control` that move themselves to the webrtc thread. Each is
one function in two halves: away from the thread it posts its arguments, and on it
does the work, and `OnMessage` unpacks the message and calls the function again.
`Close` and `ClosePeer` put all their arguments into the message; `OnPeerClose`
leaves the close code out, so that the dispatching half reads what happens to be in
the uninitialised field. -/

namespace PeerApi

def Obs.isObserver : Obs → Bool
  | .observer _ _ _ => true
  | _ => false

namespace World

open Base Relation

/-- The operations that post themselves to the webrtc thread. -/
inductive Operation where
  | close (code : CloseCode)
  | closePeer (peerId : String) (code : CloseCode)
  | onPeerClose (peerId : String) (code : CloseCode)
  deriving DecidableEq, Repr

/-- The test at the head of each operation: it posts itself when it is not on the
webrtc thread, or when told to. `OnPeerClose` has no such argument. -/
def Operation.queues (onThread forceQueuing : Bool) : Operation → Bool
  | .onPeerClose _ _ => !onThread
  | _ => forceQueuing || !onThread

/-- `Control::Close`, `Control::ClosePeer` and `Control::OnPeerClose` in full. -/
def Operation.call (env : Env) (onThread forceQueuing : Bool) (c : ℕ) (op : Operation)
    (w : World) : World :=
  if op.queues onThread forceQueuing then
    match op with
    | .close code => w.closeQueued c code
    | .closePeer peerId code => w.closePeerQueued c peerId code none
    | .onPeerClose peerId _ => w.post c .onPeerClose { dataString := peerId } none
  else
    match op with
    | .close code => w.close env c code
    | .closePeer peerId code => w.closePeer env c code peerId
    | .onPeerClose peerId code => w.onPeerClose env c none peerId code

/-- Dispatch the message that was posted last. -/
def dispatchPosted (env : Env) (w : World) : World :=
  match w.queue.getLast? with
  | none => w
  | some m => onMessage env { w with queue := w.queue.dropLast } m

/-- The same registry and instances, the same commands to the signal server and the
same calls of the observer. -/
structure Agrees (c : ℕ) (w w' : World) : Prop where
  peers : (w.controls c).peers = (w'.controls c).peers
  insts : w.insts = w'.insts
  commands : w.commands = w'.commands
  events : w.obs.filter Obs.isObserver = w'.obs.filter Obs.isObserver

/-! ### The two halves -/

theorem dispatchPosted_post (env : Env) {c : ℕ} {w : World} (ht : (w.controls c).thread = true)
    (id : MessageId) (data : MessageData) (origin : Option ℕ) :
    (w.post c id data origin).dispatchPosted env =
      onMessage env w ⟨c, id, { data with ref := (w.controls c).ref }, origin⟩ := by
  simp [post, ht, dispatchPosted]

/-- The close code that the dispatching half works with. -/
def Operation.received (env : Env) : Operation → Operation
  | .onPeerClose peerId _ => .onPeerClose peerId env.indeterminate
  | op => op

/-- Queued and dispatched, an operation does what the direct call does with the
arguments that have arrived. -/
theorem queued_eq_received (env : Env) {c : ℕ} {w : World} (ht : (w.controls c).thread = true)
    {onThread forceQueuing : Bool} {op : Operation} (hq : op.queues onThread forceQueuing = true) :
    (op.call env onThread forceQueuing c w).dispatchPosted env =
      (op.received env).call env true false c w := by
  unfold Operation.call
  rw [if_pos hq]
  cases op with
  | close code => exact dispatchPosted_post env ht _ _ _
  | closePeer peerId code => exact dispatchPosted_post env ht _ _ _
  | onPeerClose peerId code => exact dispatchPosted_post env ht _ _ _

/-! ### Agreement -/

/-- The first call of the observer is the event itself. -/
theorem observe_events (env : Env) {c : ℕ} (source : Option ℕ) (e : Event) {w : World}
    (hf : w.fault = none) (ho : (w.controls c).observer = true) :
    w.obs.filter Obs.isObserver ++ [.observer c source e] <+:
      (w.observe env c source e).obs.filter Obs.isObserver := by
  have h := (observe_obs env source e hf ho).filter Obs.isObserver
  rwa [List.filter_append, List.filter_singleton, Obs.isObserver, cond_true] at h

/-- All the arguments arrive that the dispatching half uses. -/
def Operation.Arrives (env : Env) (w : World) (c : ℕ) : Operation → Prop
  | .onPeerClose _ code => (w.controls c).observer = false ∨ code = env.indeterminate
  | _ => True

theorem Agrees.refl (c : ℕ) (w : World) : Agrees c w w := ⟨rfl, rfl, rfl, rfl⟩

/-- Two close events of one id that agree have the same code. -/
theorem onPeerClose_code (env : Env) {c : ℕ} {w : World} (hf : w.fault = none)
    (ho : (w.controls c).observer = true) {peerId : String} {code code' : CloseCode}
    (h : Agrees c (w.onPeerClose env c none peerId code) (w.onPeerClose env c none peerId code')) :
    code = code' := by
  have he := h.events
  simp only [onPeerClose, observeIfSet, if_pos ho] at he
  have h1 := observe_events env none (.close peerId code "") hf ho
  have h2 := observe_events env none (.close peerId code' "") hf ho
  rw [he] at h1
  have h3 := List.prefix_of_prefix_length_le h1 h2 (by simp)
  have h4 := List.IsPrefix.eq_of_length h3 (by simp)
  simpa using h4

/-- For every state of an initialised control and every argument, the queued call
agrees with the direct one exactly when all its arguments arrive. -/
theorem queued_agrees_iff (env : Env) (w : World) (c : ℕ) (op : Operation)
    (onThread forceQueuing : Bool) (ht : (w.controls c).thread = true) (hf : w.fault = none)
    (hq : op.queues onThread forceQueuing = true) :
    Agrees c ((op.call env onThread forceQueuing c w).dispatchPosted env)
      (op.call env true false c w) ↔ op.Arrives env w c := by
  rw [queued_eq_received env ht hq]
  cases op with
  | close code => exact ⟨fun _ => trivial, fun _ => Agrees.refl c _⟩
  | closePeer peerId code => exact ⟨fun _ => trivial, fun _ => Agrees.refl c _⟩
  | onPeerClose peerId code =>
    constructor
    · intro h
      by_cases ho : (w.controls c).observer = true
      · exact Or.inr (onPeerClose_code env hf ho h).symm
      · exact Or.inl (by simpa using ho)
    · rintro (ho | rfl)
      · have hn : ∀ code', w.onPeerClose env c none peerId code' = w := fun code' => by
          simp [onPeerClose, observeIfSet, ho]
        simp only [Operation.received, Operation.call, Operation.queues, Bool.not_true,
          Bool.false_eq_true, if_false, hn]
        exact Agrees.refl c w
      · exact Agrees.refl c _

/-- A user closes the peer "b" from another thread. -/
theorem queued_agrees_closePeer :
    Agrees 0 (((Operation.closePeer "b" .abnormal).call (.idle "a" (by decide)) false false 0
        (init.peerOpen (.idle "a" (by decide)))).dispatchPosted (.idle "a" (by decide)))
      ((Operation.closePeer "b" .abnormal).call (.idle "a" (by decide)) true false 0
        (init.peerOpen (.idle "a" (by decide)))) :=
  (queued_agrees_iff (.idle "a" (by decide)) (init.peerOpen (.idle "a" (by decide))) 0
    (.closePeer "b" .abnormal) false false (by decide) (by decide) (by decide)).mpr trivial

/-- `OnPeerClose` away from the webrtc thread loses its close code. -/
theorem onPeerClose_loses_code :
    ¬ Agrees 0 (((Operation.onPeerClose "b" .abnormal).call (.idle "a" (by decide)) false false 0
        (init.peerOpen (.idle "a" (by decide)))).dispatchPosted (.idle "a" (by decide)))
      ((Operation.onPeerClose "b" .abnormal).call (.idle "a" (by decide)) true false 0
        (init.peerOpen (.idle "a" (by decide)))) :=
  fun h => absurd h.events (by decide +kernel)

end World

end PeerApi
