import PeerApi.Websocket.Ends

/-! Two connections and the bytes between them. Each end reads what the other one has
given its transport, in order and in parts of any length, and may read less than all of it.
Everything else may happen at any time: the requests of both users, the dispatched work,
the errors of the transport and the timers. -/

namespace PeerApi.Websocket

open Base Connection

inductive Endpoint where
  | client
  | server
  deriving DecidableEq, Repr

namespace Endpoint

def isServer : Endpoint → Bool
  | client => false
  | server => true

def other : Endpoint → Endpoint
  | client => server
  | server => client

theorem other_ne (e : Endpoint) : e.other ≠ e := by cases e <;> decide

theorem other_eq {e e' : Endpoint} (h : e' ≠ e) : e'.other = e := by
  cases e <;> cases e' <;> first | rfl | exact absurd rfl h

theorem other_other (e : Endpoint) : e.other.other = e := by cases e <;> rfl

end Endpoint

/-- Both ends, and how many bytes each of them has read. -/
structure Pair where
  conn : Endpoint → Connection
  taken : Endpoint → ℕ

namespace Pair

def start (maxSize : Endpoint → ℕ) : Pair :=
  { conn := fun e => .start e.isServer (maxSize e), taken := fun _ => 0 }

/-- The bytes that an end has read. -/
def got (n : Pair) (e : Endpoint) : List UInt8 := (n.conn e.other).written.take (n.taken e)

/-- The bytes that an end may read next. -/
def incoming (n : Pair) (e : Endpoint) (k : ℕ) : List UInt8 :=
  ((n.conn e.other).written.drop (n.taken e)).take k

/-- An end acts, or it reads up to `k` bytes. -/
inductive Action where
  | act (e : Endpoint) (a : Connection.Action)
  | receive (e : Endpoint) (k : ℕ)

def isData : Connection.Action → Bool
  | .read none _ => true
  | _ => false

def step (u : Endpoint → User) (n : Pair) : Action → Pair
  | .act e a =>
    -- what is read comes from the other end
    if isData a then n
    else { n with conn := Function.update n.conn e ((n.conn e).step (u e) a) }
  | .receive e k =>
    let buf := n.incoming e k
    if (n.conn e).reading ∧ buf ≠ [] then
      { conn := Function.update n.conn e ((n.conn e).step (u e) (.read none buf))
        taken := Function.update n.taken e (n.taken e + buf.length) }
    else n

variable {u : Endpoint → User} {maxSize : Endpoint → ℕ} {n : Pair} {e : Endpoint}

/-- What holds of an end that has read `got`. -/
structure EndOk (maxSize : Endpoint → ℕ) (e : Endpoint) (got : List UInt8) (c : Connection) :
    Prop where
  tidy : c.Tidy
  course : Course c.state c.shutdowns c.obs
  sends : ∃ fs, Sends fs c
  receives : Receives (receive (.new e.isServer (maxSize e)) got).messages none c
  processor : c.reading →
    (receive (.new e.isServer (maxSize e)) got).result = .ok c.processor

/-- What moves keep of an end. -/
theorem EndOk.moves {got : List UInt8} {c c' : Connection} (h : EndOk maxSize e got c)
    (hm : Moves none c c') : EndOk maxSize e got c' where
  tidy := Moves.tidy hm h.tidy
  course := Moves.course hm h.course
  sends := by
    obtain ⟨fs, hs⟩ := h.sends
    exact Moves.sends hm hs
  receives := Moves.receives_none hm h.course h.receives
  processor := by
    rw [Moves.reading hm, Moves.processor hm]
    exact h.processor

theorem EndOk.act {got : List UInt8} {c : Connection} (h : EndOk maxSize e got c) (u : User)
    {a : Connection.Action} (ha : isData a = false) : EndOk maxSize e got (c.step u a) := by
  by_cases hread : ∀ ec buf, a ≠ .read ec buf
  · exact h.moves (step_moves u h.tidy hread)
  push Not at hread
  obtain ⟨ec, buf, rfl⟩ := hread
  cases ec with
  | none => cases ha
  | some ec =>
    obtain ⟨fs, hs⟩ := h.sends
    have hset : EndOk maxSize e got { c with reading := false } :=
      ⟨⟨h.tidy.started, h.tidy.writing⟩, h.course, ⟨fs, hs.set _ _⟩, h.receives.set _ _,
        fun hr => (by cases hr)⟩
    unfold Connection.step
    dsimp only
    by_cases hr : c.reading ∧ ((some ec : Option ErrorCode) = none → buf ≠ [])
    · rw [if_pos hr]
      exact hset.moves (handleReadFrame_error u c ec buf)
    · rw [if_neg hr]
      exact h

theorem EndOk.receive {got buf : List UInt8} {c : Connection} (h : EndOk maxSize e got c)
    (u : User) (hr : c.reading) (hbuf : buf ≠ []) :
    EndOk maxSize e (got ++ buf) (c.step u (.read none buf)) := by
  have happend := receive_append (between_new e.isServer (maxSize e)).reading got buf
  rw [h.processor hr] at happend
  have htidy : Tidy { c with reading := false } := ⟨h.tidy.started, h.tidy.writing⟩
  have hstep : c.step u (.read none buf) =
      readLoop u buf.length { c with reading := false } buf := by
    unfold Connection.step
    dsimp only
    rw [if_pos ⟨hr, fun _ => hbuf⟩]
    rfl
  refine ⟨step_tidy u h.tidy _, step_invariant Moves.course id h.tidy h.course _, ?_, ?_,
    fun hreading => ?_⟩
  · refine step_invariant (P := fun c => ∃ fs, Sends fs c) (fun hm hs => ?_) (fun hs => ?_)
      h.tidy h.sends _
    · obtain ⟨fs, hs⟩ := hs
      exact Moves.sends hm hs
    · obtain ⟨fs, hs⟩ := hs
      exact ⟨fs, hs.set _ _⟩
  · rw [hstep, happend]
    exact h.receives.readLoop u h.tidy h.course buf
  · rw [hstep] at hreading ⊢
    rw [happend]
    exact readLoop_processor buf.length htidy rfl buf hreading

/-- What holds of both ends in every state that they reach. -/
structure Ok (maxSize : Endpoint → ℕ) (n : Pair) : Prop where
  ends : ∀ e, EndOk maxSize e (n.got e) (n.conn e)
  taken : ∀ e, n.taken e ≤ (n.conn e.other).written.length

theorem ok_start (maxSize : Endpoint → ℕ) : (start maxSize).Ok maxSize := by
  refine ⟨fun e => ?_, fun e => Nat.le_refl 0⟩
  refine ⟨start_tidy _ _, .open fun o ho => (by cases ho), ⟨[], ?_⟩, ?_, fun _ => rfl⟩
  · exact ⟨rfl, fun f hf => (by cases hf), rfl, fun op payload ho => (by cases ho),
      fun code reason ack ho => (by cases ho)⟩
  · exact ⟨⟨[], [], rfl, rfl, fun _ => rfl, fun ⟨o, ho, _⟩ => (by cases ho)⟩,
      fun code reason ho => (by cases ho), fun h => (by cases h)⟩

/-- An end has written more, and the other one has read what it had read. -/
theorem got_eq {n n' : Pair} (htaken : n'.taken e = n.taken e)
    (hle : n.taken e ≤ (n.conn e.other).written.length)
    (hwritten : (n.conn e.other).written <+: (n'.conn e.other).written) : n'.got e = n.got e := by
  obtain ⟨w, hw⟩ := hwritten
  unfold got
  rw [htaken, ← hw, List.take_append_of_le_length hle]

theorem written_step (c : Connection) (u : User) (ht : c.Tidy) (a : Connection.Action) :
    c.written <+: (c.step u a).written :=
  step_invariant (P := fun c' => c.written <+: c'.written)
    (fun hm hp => hp.trans (Moves.written hm)) id ht List.prefix_rfl a

/-- One end goes on to `c`, and has read `k` bytes more. -/
def goes (n : Pair) (e : Endpoint) (c : Connection) (k : ℕ) : Pair :=
  { conn := Function.update n.conn e c, taken := Function.update n.taken e (n.taken e + k) }

theorem conn_goes (n : Pair) (e : Endpoint) (c : Connection) (k : ℕ) :
    (n.goes e c k).conn e = c := Function.update_self ..

theorem conn_goes_ne {e e' : Endpoint} (h : e' ≠ e) (n : Pair) (c : Connection) (k : ℕ) :
    (n.goes e c k).conn e' = n.conn e' := Function.update_of_ne h ..

theorem Ok.goes (h : n.Ok maxSize) {c : Connection} {k : ℕ}
    (hwritten : (n.conn e).written <+: c.written)
    (hk : n.taken e + k ≤ (n.conn e.other).written.length)
    (hc : EndOk maxSize e ((n.conn e.other).written.take (n.taken e + k)) c) :
    (n.goes e c k).Ok maxSize := by
  have hother : (n.goes e c k).conn e.other = n.conn e.other := conn_goes_ne e.other_ne ..
  have htaken : (n.goes e c k).taken e = n.taken e + k := Function.update_self ..
  refine ⟨fun e' => ?_, fun e' => ?_⟩
  · by_cases he : e' = e
    · subst he
      rw [conn_goes, got, hother, htaken]
      exact hc
    · have hgot : (n.goes e c k).got e' = n.got e' := by
        refine got_eq (Function.update_of_ne he ..) (h.taken e') ?_
        rw [Endpoint.other_eq he, conn_goes]
        exact hwritten
      rw [hgot, conn_goes_ne he]
      exact h.ends e'
  · by_cases he : e' = e
    · subst he
      rw [htaken, hother]
      exact hk
    · have htaken' : (n.goes e c k).taken e' = n.taken e' := Function.update_of_ne he ..
      rw [htaken', Endpoint.other_eq he, conn_goes]
      have hle := h.taken e'
      rw [Endpoint.other_eq he] at hle
      exact hle.trans hwritten.length_le

theorem Ok.step (h : n.Ok maxSize) (u : Endpoint → User) (a : Action) :
    (n.step u a).Ok maxSize := by
  cases a with
  | act e a =>
    unfold Pair.step
    dsimp only
    by_cases ha : isData a
    · rw [if_pos ha]
      exact h
    · rw [if_neg ha]
      have hgoes : n.goes e ((n.conn e).step (u e) a) 0 =
          { n with conn := Function.update n.conn e ((n.conn e).step (u e) a) } := by
        rw [Pair.goes, Nat.add_zero, Function.update_eq_self]
      rw [← hgoes]
      refine h.goes (written_step _ (u e) (h.ends e).tidy a) (h.taken e) ?_
      exact (h.ends e).act (u e) (by simpa using ha)
  | receive e k =>
    unfold Pair.step
    dsimp only
    by_cases hr : (n.conn e).reading ∧ n.incoming e k ≠ []
    · rw [if_pos hr]
      have hlen : n.taken e + (n.incoming e k).length ≤ (n.conn e.other).written.length := by
        have hle := h.taken e
        unfold incoming
        rw [List.length_take, List.length_drop]
        omega
      have hgot : (n.conn e.other).written.take (n.taken e + (n.incoming e k).length) =
          n.got e ++ n.incoming e k := by
        unfold got incoming
        rw [List.take_add, ← List.prefix_iff_eq_take.mp (List.take_prefix ..)]
      refine h.goes (written_step _ (u e) (h.ends e).tidy _) hlen ?_
      rw [hgot]
      exact (h.ends e).receive (u e) hr.1 hr.2
    · rw [if_neg hr]
      exact h

theorem run_ok (u : Endpoint → User) (maxSize : Endpoint → ℕ) (as : List Action) :
    (run (step u) (start maxSize) as).Ok maxSize :=
  run_invariant (fun _ a h => h.step u a) (ok_start maxSize) as

/-- What an end has read are messages of the other one, in order. -/
theorem messages_le_plain (maxSize : Endpoint → ℕ) (e : Endpoint) {fs : List Frame}
    (hs : Sends fs (n.conn e.other)) :
    (receive (.new e.isServer (maxSize e)) (n.got e)).messages <+: fs.map Frame.plain := by
  refine (between_new e.isServer (maxSize e)).receive_messages_le hs.fin ?_
  have hgot : n.got e <+: (n.conn e.other).written := List.take_prefix ..
  rw [← hs.out]
  exact hgot.trans (List.prefix_append ..)

theorem Ok.messages_le_sent (h : n.Ok maxSize) (e : Endpoint) :
    (n.conn e).obs.filterMap Obs.message? <+: (n.conn e.other).obs.filterMap Obs.sent? := by
  obtain ⟨fs, hs⟩ := (h.ends e.other).sends
  obtain ⟨ms₁, ms₂, hms, hhandled, -⟩ := (h.ends e).receives.handled
  have hprefix := messages_le_plain maxSize e hs
  rw [hms] at hprefix
  rw [hhandled, hs.sent]
  exact ((List.prefix_append ms₁ ms₂).trans hprefix).filter _

/-- A close frame that an end has read was queued by the other one. -/
theorem Ok.exists_closing (h : n.Ok maxSize) (e : Endpoint) {m : Message}
    (hm : m ∈ (receive (.new e.isServer (maxSize e)) (n.got e)).messages)
    (hclose : m.opcode = .close) : ∃ code reason ack,
      .closing code reason ack ∈ (n.conn e.other).obs ∧ CanClose code reason ∧
      m.payload = closePayload code reason := by
  obtain ⟨fs, hs⟩ := (h.ends e.other).sends
  have hmem := (messages_le_plain maxSize e hs).subset hm
  rw [hs.plain] at hmem
  obtain ⟨o, ho, hq⟩ := List.mem_filterMap.mp hmem
  cases o with
  | closing code reason ack =>
    cases hq
    exact ⟨code, reason, ack, ho, hs.canClose code reason ack ho, rfl⟩
  | sent op payload => exact absurd hclose (hs.not_close ho hq rfl)
  | pinged payload => exact absurd hclose (hs.not_close ho hq rfl)
  | ponged payload => exact absurd hclose (hs.not_close ho hq rfl)
  | _ => cases hq

/-- An end that only acknowledges has handed on all that the other end sent. -/
theorem Ok.handled_eq (h : n.Ok maxSize) (hack : ∃ o ∈ (n.conn e).obs, o.isAck)
    (hall : ∀ o ∈ (n.conn e).obs, o.isClosing → o.isAck) :
    (n.conn e).obs.filterMap Obs.message? = (n.conn e.other).obs.filterMap Obs.sent? := by
  obtain ⟨fs, hs⟩ := (h.ends e.other).sends
  obtain ⟨ms₁, ms₂, hms, hhandled, -, hclose⟩ := (h.ends e).receives.handled
  obtain ⟨m, rest, hm, hmc⟩ := hclose hack hall
  rw [Option.toList_none, List.append_nil] at hm
  obtain ⟨late, hlate⟩ := messages_le_plain maxSize e hs
  have hfs : ms₁ ++ m :: (rest ++ late) = fs.map Frame.plain := by
    rw [← hlate, hms, hm, List.append_assoc, List.cons_append]
  have hm' : m.isData = false := by
    simp [Message.isData, hmc, Opcode.isControl, Opcode.value]
  have hnone := hs.closed (h.ends e.other).course hmc hfs
  rw [hhandled, hs.sent, ← hfs, List.filter_append, List.filter_cons_of_neg (by simp [hm']), hnone,
    List.append_nil]

/-- In every run the messages that one end hands to its user are the first ones that the
other end took to send, in the same order and unchanged. -/
theorem handled_in_order (u : Endpoint → User) (maxSize : Endpoint → ℕ) (as : List Action)
    (e : Endpoint) :
    ((run (step u) (start maxSize) as).conn e).obs.filterMap Obs.message? <+:
      ((run (step u) (start maxSize) as).conn e.other).obs.filterMap Obs.sent? :=
  (run_ok u maxSize as).messages_le_sent e

/-- A user who asks nothing when told something. -/
def calm : Endpoint → User :=
  fun _ => { react := fun _ => [], reply := fun _ => true, key := fun _ => 0x04030201 }

/-- The client sends a text and closes, and the server reads in two parts. -/
def goodbye (reason : List UInt8) : List Action :=
  [.act .client (.call (.send .text [104, 105] (by decide))), .act .client .writeFrame,
    .act .client (.call (.close CloseStatus.normal reason)), .act .client (.written none),
    .act .client .writeFrame, .receive .server 5, .receive .server 200,
    .act .server .writeFrame, .receive .client 200]

/-- The acknowledgement of a close frame with this code and this reason. -/
def acknowledged (code : CloseStatus) (reason : List UInt8) : CloseStatus × List UInt8 :=
  if code = CloseStatus.noStatus then (CloseStatus.normal, []) else (code, reason)

theorem echo_closePayload {code : CloseStatus} {reason : List UInt8} (h : CanClose code reason) :
    (IsText reason → echo (closePayload code reason) = acknowledged code reason) ∧
      (¬ IsText reason → echo (closePayload code reason) =
        (CloseStatus.protocolError, "Invalid close reason".toUTF8.toList)) := by
  obtain ⟨hreason, htext⟩ := extractReason_closePayload h
  unfold echo acknowledged
  rw [extractCode_closePayload h, hreason, if_neg (not_not_intro rfl)]
  constructor
  · intro ht
    rw [if_neg (not_not_intro (htext.mpr ht))]
  · intro ht
    rw [if_pos fun hnone => ht (htext.mp hnone)]

/-- Both ends agree on why a connection was closed, as long as the reason is a text. A
reason that `close` has cut within a character is answered with a protocol error. -/
theorem close_acknowledged (u : Endpoint → User) (maxSize : Endpoint → ℕ) (as : List Action)
    (e : Endpoint) (code : CloseStatus) (reason : List UInt8)
    (hack : .closing code reason true ∈ ((run (step u) (start maxSize) as).conn e).obs) :
    ∃ code' reason' ack,
      .closing code' reason' ack ∈ ((run (step u) (start maxSize) as).conn e.other).obs ∧
      (IsText reason' → (code, reason) = acknowledged code' reason') ∧
      (¬ IsText reason' → (code, reason) =
        (CloseStatus.protocolError, "Invalid close reason".toUTF8.toList)) := by
  have h := run_ok u maxSize as
  generalize run (step u) (start maxSize) as = n at *
  obtain ⟨m, hm, hclose, hecho⟩ := (h.ends e).receives.acks code reason hack
  rw [Option.toList_none, List.append_nil] at hm
  obtain ⟨code', reason', ack, ho, hcan, hpayload⟩ := h.exists_closing e hm hclose
  obtain ⟨htext, hno⟩ := echo_closePayload hcan
  rw [hpayload] at hecho
  exact ⟨code', reason', ack, ho, fun ht => hecho.trans (htext ht), fun ht => hecho.trans (hno ht)⟩

theorem close_acknowledged_goodbye :
    ∃ code' reason' ack, .closing code' reason' ack ∈
        ((run (step calm) (start fun _ => 100) (goodbye [98, 121, 101])).conn
          Endpoint.server.other).obs ∧
      (IsText reason' → (CloseStatus.normal, [98, 121, 101]) = acknowledged code' reason') ∧
      (¬ IsText reason' → (CloseStatus.normal, [98, 121, 101]) =
        (CloseStatus.protocolError, "Invalid close reason".toUTF8.toList)) :=
  close_acknowledged calm (fun _ => 100) (goodbye [98, 121, 101]) .server CloseStatus.normal
    [98, 121, 101] (by decide +kernel)

/-- A reason of 122 letters and a character of two bytes is cut in half. -/
example :
    ((run (step calm) (start fun _ => 100)
      (goodbye (List.replicate 122 97 ++ [195, 169]))).conn .server).obs =
      [.message { opcode := .text, payload := [104, 105] },
        .closing CloseStatus.protocolError "Invalid close reason".toUTF8.toList true] := by
  decide +kernel

end Pair

end PeerApi.Websocket
