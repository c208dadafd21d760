import PeerApi.Websocket.Connection
import Mathlib.Logic.Relation

/-! What a connection can do, said once. Whatever happens to it is a sequence of a few
kinds of moves: a message is queued while the connection is open, a close frame is queued
and the connection is closing, a handler is called, the connection is closed, and that is
announced. From the moves follows the course of every connection, whoever the peer is. -/

namespace PeerApi.Websocket

open Relation

/-- The code and the reason with which a close frame is acknowledged. -/
def echo (payload : List UInt8) : CloseStatus × List UInt8 :=
  if (extractCode payload).2 ≠ none then
    (CloseStatus.protocolError, "Invalid close code".toUTF8.toList)
  else if (extractReason payload).2 ≠ none then
    (CloseStatus.protocolError, "Invalid close reason".toUTF8.toList)
  else if (extractCode payload).1 = CloseStatus.noStatus then (CloseStatus.normal, [])
  else ((extractCode payload).1, (extractReason payload).1)

namespace Connection

/-- All that was ever queued, as bytes. -/
def out (c : Connection) : List UInt8 := c.written ++ c.sendQueue.flatMap Message.bytes

/-- The message that is queued when the user or a ping asks for it. -/
inductive Queued (p : Hybi13) : Obs → Message → Prop
  | sent {op : Opcode} {payload : List UInt8} {key : MaskingKey} {msg : Message}
      (h : payload.length < 2 ^ 64)
      (hp : p.prepareDataFrame key { opcode := op, payload } = .ok msg) :
      Queued p (.sent op payload) msg
  | pinged {payload : List UInt8} {key : MaskingKey} {msg : Message}
      (hp : p.preparePing key payload = .ok msg) : Queued p (.pinged payload) msg
  | ponged {payload : List UInt8} {key : MaskingKey} {msg : Message}
      (hp : p.preparePong key payload = .ok msg) : Queued p (.ponged payload) msg

/-- The handler that takes a message. -/
inductive Notices : Message → Obs → Prop
  | message {m : Message} (h : m.opcode.isControl = false) : Notices m (.message m)
  | ping {m : Message} (h : m.opcode = .ping) : Notices m (.ping m.payload)
  | pong {m : Message} (h : m.opcode = .pong) : Notices m (.pong m.payload)

/-- The handshake is done, and between two writes no message is with the transport. -/
structure Tidy (c : Connection) : Prop where
  started : c.state ≠ .connecting
  writing : c.writeFlag = false → c.currentMsgs = []

/-- The parts of a connection that the moves do not tell of may change. -/
structure Still (c c' : Connection) : Prop where
  state : c'.state = c.state := by rfl
  obs : c'.obs = c.obs := by rfl
  out : c'.out = c.out := by rfl
  wasClean : c'.wasClean = c.wasClean := by rfl
  shutdowns : c'.shutdowns = c.shutdowns := by rfl
  isServer : c'.isServer = c.isServer := by rfl
  processor : c'.processor = c.processor := by rfl
  reading : c'.reading = c.reading := by rfl
  writing : (c.writeFlag = false → c.currentMsgs = []) → c'.writeFlag = false →
    c'.currentMsgs = [] := by exact id
  written : c.written <+: c'.written := by exact List.prefix_rfl

/-- A move of a connection that deals with the message `src`, or with none. -/
inductive Move (src : Option Message) (c : Connection) : Connection → Prop
  | still {c' : Connection} (h : Still c c') : Move src c c'
  | queued {o : Obs} {msg : Message} (hopen : c.state = .open) (h : Queued c.processor o msg) :
      Move src c (c.queue o msg)
  | closing {code : CloseStatus} {reason : List UInt8} {ack terminal : Bool} {key : MaskingKey}
      {msg : Message} (hstate : c.state = .open ∨ c.state = .closing ∧ ack)
      (hack : ack → ∃ m, src = some m ∧ m.opcode = .close ∧ (code, reason) = echo m.payload)
      (h : c.processor.prepareClose key code reason = .ok msg) :
      Move src c (({ c with
        state := .closing
        wasClean := c.wasClean || ack
        handshakeTimer := true } : Connection).queue (.closing code reason ack)
          (if terminal then { msg with terminal := true } else msg))
  | noticed {m : Message} {o : Obs} (hopen : c.state = .open) (hsrc : src = some m)
      (h : Notices m o) : Move src c { c with obs := c.obs ++ [o] }
  | cleaned {m : Message} (hstate : c.state = .closing) (hsrc : src = some m)
      (h : m.opcode = .close) : Move src c { c with wasClean := true }
  | terminated {tstat : TerminateStatus} (hstate : c.state ≠ .closed)
      (h : tstat = if c.state = .connecting then .failed else .closed) :
      Move src c { c with state := .closed, shutdowns := c.shutdowns ++ [tstat] }
  | announced {tstat : TerminateStatus} {rest : List TerminateStatus} {o : Option Obs}
      (hstate : c.shutdowns = tstat :: rest)
      (h : o = none ∧ tstat ≠ .closed ∨ o = some .failed ∧ tstat = .failed ∨
        o = some .closed ∧ tstat = .closed) :
      Move src c { c with shutdowns := rest, obs := c.obs ++ o.toList }

abbrev Moves (src : Option Message) : Connection → Connection → Prop :=
  ReflTransGen (Move src)

variable {u : User} {src : Option Message} {c c' : Connection}

theorem Still.moves (h : Still c c') : Moves src c c' := .single (.still h)

theorem Still.trans {c'' : Connection} (h : Still c c') (h' : Still c' c'') : Still c c'' :=
  ⟨h'.state.trans h.state, h'.obs.trans h.obs, h'.out.trans h.out, h'.wasClean.trans h.wasClean,
    h'.shutdowns.trans h.shutdowns, h'.isServer.trans h.isServer,
    h'.processor.trans h.processor, h'.reading.trans h.reading,
    fun ht => h'.writing (h.writing ht), h.written.trans h'.written⟩

theorem needsWriting_still (c : Connection) : Still c c.needsWriting := by
  unfold needsWriting
  split_ifs <;> exact {}

/-! ### Queueing -/

section queue

variable (c : Connection) (o : Obs) (msg : Message)

@[simp] theorem state_queue : (c.queue o msg).state = c.state := (needsWriting_still _).state

@[simp] theorem obs_queue : (c.queue o msg).obs = c.obs ++ [o] := (needsWriting_still _).obs

@[simp] theorem wasClean_queue : (c.queue o msg).wasClean = c.wasClean :=
  (needsWriting_still _).wasClean

@[simp] theorem shutdowns_queue : (c.queue o msg).shutdowns = c.shutdowns :=
  (needsWriting_still _).shutdowns

@[simp] theorem isServer_queue : (c.queue o msg).isServer = c.isServer :=
  (needsWriting_still _).isServer

@[simp] theorem processor_queue : (c.queue o msg).processor = c.processor :=
  (needsWriting_still _).processor

@[simp] theorem reading_queue : (c.queue o msg).reading = c.reading :=
  (needsWriting_still _).reading

@[simp] theorem written_queue : (c.queue o msg).written = c.written := by
  unfold queue needsWriting
  split_ifs <;> rfl

@[simp] theorem out_queue : (c.queue o msg).out = c.out ++ msg.bytes := by
  unfold queue
  rw [(needsWriting_still _).out]
  simp [out, writePush]

end queue

/-! ### Requests -/

theorem send_moves (u : User) (c : Connection) (op : Opcode) {payload : List UInt8}
    (h : payload.length < 2 ^ 64) : Moves src c (c.send u op payload).2 := by
  unfold send
  by_cases hopen : c.state = .open
  · rw [if_neg (not_not_intro hopen)]
    cases hp : c.processor.prepareDataFrame (u.key c.drawn) { opcode := op, payload } with
    | error ec => exact .refl
    | ok msg => exact .single (.queued hopen (.sent h hp))
  · rw [if_pos hopen]

theorem ping_moves (u : User) (c : Connection) (payload : List UInt8) :
    Moves src c (c.ping u payload).2 := by
  unfold ping
  by_cases hopen : c.state = .open
  · rw [if_neg (not_not_intro hopen)]
    cases hp : c.processor.preparePing (u.key c.drawn) payload with
    | error ec => exact .refl
    | ok msg => exact .single (.queued hopen (.pinged hp))
  · rw [if_pos hopen]

theorem pong_moves (u : User) (c : Connection) (payload : List UInt8) :
    Moves src c (c.pong u payload).2 := by
  unfold pong
  by_cases hopen : c.state = .open
  · rw [if_neg (not_not_intro hopen)]
    cases hp : c.processor.preparePong (u.key c.drawn) payload with
    | error ec => exact .refl
    | ok msg => exact .single (.queued hopen (.ponged hp))
  · rw [if_pos hopen]

theorem sendCloseFrame_moves (u : User) (c : Connection) {code : CloseStatus}
    {reason : List UInt8} {ack : Bool} (terminal : Bool)
    (hstate : c.state = .open ∨ c.state = .closing ∧ ack)
    (hack : ack → ∃ m, src = some m ∧ m.opcode = .close ∧
      c.closeInfo code reason ack = echo m.payload) :
    Moves src c (c.sendCloseFrame u code reason ack terminal).2 := by
  unfold sendCloseFrame
  generalize hinfo : c.closeInfo code reason ack = info at *
  obtain ⟨code', reason'⟩ := info
  dsimp only
  have hlocal : Moves src c { c with localCloseCode := code', localCloseReason := reason' } :=
    Still.moves {}
  cases hp : c.processor.prepareClose (u.key c.drawn) code' reason' with
  | error ec => exact hlocal
  | ok msg => exact hlocal.tail (.closing hstate hack hp)

theorem close_moves (u : User) (c : Connection) (code : CloseStatus) (reason : List UInt8) :
    Moves src c (c.close u code reason).2 := by
  unfold close
  by_cases hopen : c.state = .open
  · dsimp only
    rw [if_neg (not_not_intro hopen)]
    exact sendCloseFrame_moves u c _ (Or.inl hopen) fun h => (by cases h)
  · dsimp only
    rw [if_pos hopen]

theorem call_moves (u : User) (c : Connection) (x : Call) : Moves src c (c.call u x) := by
  cases x with
  | send op payload h => exact send_moves u c op h
  | ping payload => exact ping_moves u c payload
  | pong payload => exact pong_moves u c payload
  | close code reason => exact close_moves u c code reason

theorem calls_moves (u : User) (c : Connection) (xs : List Call) :
    Moves src c (xs.foldl (call u) c) := by
  induction xs generalizing c with
  | nil => exact .refl
  | cons x xs ih => exact (call_moves u c x).trans (ih _)

/-! ### The end of a connection -/

theorem terminate_eq (c : Connection) (ec : Option ErrorCode) :
    ∃ c₁, Still c c₁ ∧ c.terminate ec =
      if c.state = .closed then c₁
      else { c₁ with
        state := .closed
        shutdowns := c₁.shutdowns ++ [if c₁.state = .connecting then .failed else .closed] } := by
  cases ec with
  | none =>
    refine ⟨{ c with handshakeTimer := false }, {}, ?_⟩
    unfold terminate
    cases hs : c.state <;> simp
  | some e =>
    refine ⟨{ c with
      handshakeTimer := false
      ec := some e
      localCloseCode := CloseStatus.abnormalClose
      localCloseReason := e.message }, {}, ?_⟩
    unfold terminate
    cases hs : c.state <;> simp

theorem terminate_moves (c : Connection) (ec : Option ErrorCode) :
    Moves src c (c.terminate ec) := by
  obtain ⟨c₁, hstill, heq⟩ := c.terminate_eq ec
  rw [heq]
  by_cases hclosed : c.state = .closed
  · rw [if_pos hclosed]
    exact hstill.moves
  · rw [if_neg hclosed]
    rw [← hstill.state] at hclosed
    exact hstill.moves.tail (.terminated hclosed rfl)

theorem handle_moves (u : User) {c : Connection} {o : Obs}
    (h : Move src c { c with obs := c.obs ++ [o] }) : Moves src c (c.handle u o) :=
  (ReflTransGen.single h).trans (calls_moves u _ _)

theorem handleTerminate_moves (u : User) {c : Connection} {tstat : TerminateStatus}
    {rest : List TerminateStatus} (h : c.shutdowns = tstat :: rest) :
    Moves src c ({ c with shutdowns := rest }.handleTerminate u tstat) := by
  have hsilent (ht : tstat ≠ .closed) : Move src c { c with shutdowns := rest } := by
    have hmove : Move src c
        { c with shutdowns := rest, obs := c.obs ++ (none : Option Obs).toList } :=
      .announced h (Or.inl ⟨rfl, ht⟩)
    rwa [Option.toList_none, List.append_nil] at hmove
  cases tstat with
  | failed =>
    unfold handleTerminate
    dsimp only
    split_ifs
    · exact .head (.announced h (Or.inr (Or.inl ⟨rfl, rfl⟩))) (calls_moves u _ _)
    · exact .single (hsilent (by decide))
  | closed => exact .head (.announced h (Or.inr (Or.inr ⟨rfl, rfl⟩))) (calls_moves u _ _)
  | unknown => exact .single (hsilent (by decide))

theorem handleCloseHandshakeTimeout_moves (c : Connection) (ec : Option ErrorCode) :
    Moves src c (c.handleCloseHandshakeTimeout ec) := by
  cases ec with
  | none => exact terminate_moves c (some (.library .closeHandshakeTimeout))
  | some e => exact .refl

/-! ### Writing -/

/-- What is collected was queued, and it leaves the queue in order. -/
theorem collect_spec (n : ℕ) (c : Connection) :
    ∃ msgs rest size, c.sendQueue = msgs ++ rest ∧ collect n c =
      { c with
        sendBufferSize := size
        sendQueue := rest
        currentMsgs := c.currentMsgs ++ msgs } := by
  induction n generalizing c with
  | zero => exact ⟨[], c.sendQueue, c.sendBufferSize, rfl, by simp [collect]⟩
  | succ n ih =>
    unfold collect writePop
    cases hq : c.sendQueue with
    | nil =>
      refine ⟨[], [], c.sendBufferSize, rfl, ?_⟩
      cases c
      subst hq
      simp only [List.append_nil]
    | cons msg rest =>
      dsimp only
      by_cases ht : msg.terminal
      · rw [if_pos ht]
        exact ⟨[msg], rest, _, rfl, rfl⟩
      · rw [if_neg ht]
        obtain ⟨msgs, rest', size, hrest, heq⟩ := ih _
        refine ⟨msg :: msgs, rest', size, congrArg (msg :: ·) hrest, heq.trans ?_⟩
        simp

theorem writeFrame_still {c : Connection} (h : c.Tidy) : Still c c.writeFrame := by
  unfold writeFrame
  cases hflag : c.writeFlag with
  | true => exact {}
  | false =>
    rw [if_neg Bool.false_ne_true]
    obtain ⟨msgs, rest, size, hq, heq⟩ := collect_spec c.sendQueue.length c
    rw [h.writing hflag, List.nil_append] at heq
    rw [heq]
    dsimp only
    split_ifs with hnil
    · have hout : c.sendQueue = rest := by rw [hq, hnil, List.nil_append]
      exact { out := by simp [out, hout], writing := fun _ _ => hnil }
    · exact {
        out := by simp [out, hq]
        writing := fun _ hfalse => (by cases hfalse)
        written := List.prefix_append .. }

theorem handleWriteFrame_moves (c : Connection) (ec : Option ErrorCode) :
    Moves src c (c.handleWriteFrame ec) := by
  have hstill : Still c { c with currentMsgs := [] } := { writing := fun _ _ => rfl }
  unfold handleWriteFrame
  cases ec with
  | some e => exact hstill.moves.trans (terminate_moves _ _)
  | none =>
    dsimp only
    split_ifs
    · exact hstill.moves.trans (terminate_moves _ _)
    · have hflag : Still c { c with currentMsgs := [], writeFlag := false } :=
        { writing := fun _ _ => rfl }
      exact (hflag.trans (needsWriting_still _)).moves

/-! ### Reading -/

theorem sendCloseAck_moves (u : User) {c : Connection} {m : Message} (hclose : m.opcode = .close)
    (hstate : c.state = .open ∨ c.state = .closing) {code : CloseStatus} {reason : List UInt8}
    (hinfo : c.closeInfo code reason true = echo m.payload) :
    Moves (some m) c (c.sendCloseAck u code reason).2 :=
  sendCloseFrame_moves u c _ (hstate.imp_right fun h => ⟨h, rfl⟩) fun _ => ⟨m, rfl, hclose, hinfo⟩

theorem processControlFrame_moves (u : User) {c : Connection} (hc : c.state ≠ .connecting)
    (m : Message) : Moves (some m) c (c.processControlFrame u m) := by
  unfold processControlFrame
  dsimp only
  by_cases hclosed : c.state = .closed
  · rw [if_pos hclosed]
  rw [if_neg hclosed]
  by_cases hclose : m.opcode = .close
  · have hcode : Still c { c with remoteCloseCode := (extractCode m.payload).1 } := {}
    have hreason : Still c { c with
        remoteCloseCode := (extractCode m.payload).1
        remoteCloseReason := (extractReason m.payload).1 } := {}
    have hstate : c.state = .open ∨ c.state = .closing := by
      cases hs : c.state <;> simp_all
    rw [if_neg fun h => h.1 hclose, if_neg (by rw [hclose]; decide),
      if_neg (by rw [hclose]; decide), if_pos hclose]
    by_cases h1 : (extractCode m.payload).2 = none
    · rw [if_neg (not_not_intro h1)]
      by_cases h2 : (extractReason m.payload).2 = none
      · rw [if_neg (not_not_intro h2)]
        split_ifs with h3 h4 h5
        · refine hreason.moves.trans (sendCloseAck_moves u hclose ?_ ?_)
          · exact Or.inl h3
          · unfold echo closeInfo
            rw [if_neg (not_not_intro h1), if_neg (not_not_intro h2)]
            rfl
        · exact (hreason.moves.tail (.cleaned h4.1 rfl hclose)).trans (terminate_moves _ _)
        · exact hreason.moves.tail (.cleaned h4.1 rfl hclose)
        · exact hreason.moves
      · rw [if_pos h2]
        refine hreason.moves.trans (sendCloseAck_moves u hclose ?_ ?_)
        · exact hstate
        · unfold echo
          rw [if_neg (not_not_intro h1), if_pos h2]
          rfl
    · rw [if_pos h1]
      refine hcode.moves.trans (sendCloseAck_moves u hclose ?_ ?_)
      · exact hstate
      · unfold echo
        rw [if_pos h1]
        rfl
  · by_cases hopen : c.state = .open
    · rw [if_neg fun h => h.2 hopen]
      split_ifs with h1 h2 h3
      · exact (handle_moves u (.noticed hopen rfl (.ping h1))).trans (pong_moves u _ _)
      · exact handle_moves u (.noticed hopen rfl (.ping h1))
      · exact handle_moves u (.noticed hopen rfl (.pong h3))
      · exact .refl
    · rw [if_pos ⟨hclose, hopen⟩]

theorem deliver_moves (u : User) {c : Connection} (hc : c.state ≠ .connecting) (m : Message) :
    Moves (some m) c (c.deliver u m) := by
  unfold deliver
  cases hcontrol : m.opcode.isControl with
  | true => exact processControlFrame_moves u hc m
  | false =>
    rw [Bool.not_false, if_pos rfl]
    by_cases hopen : c.state = .open
    · rw [if_neg (not_not_intro hopen)]
      exact handle_moves u (.noticed hopen rfl (.message hcontrol))
    · rw [if_pos hopen]

/-! ### What moves keep -/

theorem Move.isServer (h : Move src c c') : c'.isServer = c.isServer := by
  cases h with
  | still h => exact h.isServer
  | queued => rw [isServer_queue]
  | closing => rw [isServer_queue]
  | _ => rfl

theorem Move.processor (h : Move src c c') : c'.processor = c.processor := by
  cases h with
  | still h => exact h.processor
  | queued => rw [processor_queue]
  | closing => rw [processor_queue]
  | _ => rfl

theorem Move.reading (h : Move src c c') : c'.reading = c.reading := by
  cases h with
  | still h => exact h.reading
  | queued => rw [reading_queue]
  | closing => rw [reading_queue]
  | _ => rfl

theorem Move.tidy (h : Move src c c') (ht : c.Tidy) : c'.Tidy := by
  cases h with
  | still h => exact ⟨fun hs => ht.started (h.state ▸ hs), h.writing ht.writing⟩
  | queued hopen =>
    exact ⟨fun hs => ht.started (state_queue .. ▸ hs), (needsWriting_still _).writing ht.writing⟩
  | closing =>
    refine ⟨fun hs => ?_, (needsWriting_still _).writing ht.writing⟩
    rw [state_queue] at hs
    cases hs
  | noticed => exact ⟨ht.started, ht.writing⟩
  | cleaned => exact ⟨ht.started, ht.writing⟩
  | terminated => exact ⟨fun hs => (by cases hs), ht.writing⟩
  | announced => exact ⟨ht.started, ht.writing⟩

theorem Move.written (h : Move src c c') : c.written <+: c'.written := by
  cases h with
  | still h => exact h.written
  | queued => rw [written_queue]
  | closing => rw [written_queue]
  | _ => exact List.prefix_rfl

theorem Moves.written (h : Moves src c c') : c.written <+: c'.written := by
  induction h with
  | refl => exact List.prefix_rfl
  | tail _ h ih => exact ih.trans h.written

theorem Moves.processor (h : Moves src c c') : c'.processor = c.processor := by
  induction h with
  | refl => rfl
  | tail _ h ih => exact h.processor.trans ih

theorem Moves.reading (h : Moves src c c') : c'.reading = c.reading := by
  induction h with
  | refl => rfl
  | tail _ h ih => exact h.reading.trans ih

theorem Moves.tidy (h : Moves src c c') (ht : c.Tidy) : c'.Tidy := by
  induction h with
  | refl => exact ht
  | tail _ h ih => exact h.tidy ih

/-! ### The loop -/

/-- What follows an error of the processor. -/
def refuse (u : User) (c : Connection) (ec : ProcessorError) : Connection :=
  match c.close u (toWs (.processor ec)) (ErrorCode.processor ec).message with
  | (some e, c) => c.terminate (some e)
  | (none, c) => c

theorem refuse_moves (u : User) (c : Connection) (ec : ProcessorError) :
    Moves src c (c.refuse u ec) := by
  have hclose : Moves src c (c.close u (toWs (.processor ec)) (ErrorCode.processor ec).message).2 :=
    close_moves u c _ _
  unfold refuse
  rcases hc : c.close u (toWs (.processor ec)) (ErrorCode.processor ec).message with ⟨_ | e, c'⟩
  · rw [hc] at hclose
    exact hclose
  · rw [hc] at hclose
    exact hclose.trans (terminate_moves c' _)

/-- One round of the loop. -/
theorem readLoop_succ (u : User) (fuel : ℕ) (c : Connection) {buf : List UInt8} (hbuf : buf ≠ []) :
    readLoop u (fuel + 1) c buf =
      match c.processor.consume buf with
      | .error ec => c.refuse u ec
      | .ok (p, buf) =>
        if p.ready then
          match p.getMessage with
          | (none, p) => readLoop u fuel { c with processor := p } buf
          | (some m, p) => readLoop u fuel ({ c with processor := p }.deliver u m) buf
        else readLoop u fuel { c with processor := p } buf := by
  rw [readLoop, if_neg hbuf]
  cases c.processor.consume buf with
  | error ec =>
    unfold refuse
    rcases hc : c.close u (toWs (.processor ec)) (ErrorCode.processor ec).message with ⟨_ | e, c'⟩
    · simp only [hc]
    · simp only [hc]
  | ok r =>
    obtain ⟨p, buf'⟩ := r
    rcases hm : p.getMessage with ⟨_ | m, q⟩
    · simp only [hm]
    · simp only [hm]

section loop

variable {P : Connection → List Message → Prop}

/-- What the loop does to a connection, message by message. -/
theorem readLoop_messages (hmove : ∀ {c c' ms}, Moves none c c' → P c ms → P c' ms)
    (hdeliver : ∀ {c m ms}, c.Tidy → P c ms → P (c.deliver u m) (ms ++ [m]))
    (hset : ∀ {c p r ms}, P c ms → P { c with processor := p, reading := r } ms) (fuel : ℕ)
    (ht : c.Tidy) (buf : List UInt8) (ms : List Message) (h : P c ms) :
    P (readLoop u fuel c buf) (ms ++ (receiveLoop fuel c.processor buf).messages) := by
  induction fuel generalizing c buf ms with
  | zero =>
    rw [receiveLoop, List.append_nil]
    exact hset h
  | succ fuel ih =>
    by_cases hbuf : buf = []
    · rw [readLoop, if_pos hbuf, receiveLoop, if_pos hbuf, List.append_nil]
      exact hset h
    rw [readLoop_succ u fuel c hbuf, receiveLoop, if_neg hbuf]
    cases hc : c.processor.consume buf with
    | error ec =>
      rw [List.append_nil]
      exact hmove (refuse_moves u c ec) h
    | ok r =>
      obtain ⟨p, buf'⟩ := r
      have htidy (p : Hybi13) : Tidy { c with processor := p } := ⟨ht.started, ht.writing⟩
      dsimp only
      by_cases hready : p.ready
      · rw [if_pos hready, if_pos hready]
        rcases hm : p.getMessage with ⟨_ | m, q⟩
        · exact ih (htidy q) buf' ms (hset h)
        · have hd := deliver_moves u (htidy q).started m
          have hih := ih (Moves.tidy hd (htidy q)) buf' _ (hdeliver (htidy q) (hset h))
          rw [Moves.processor hd] at hih
          simpa [Received.after] using hih
      · rw [if_neg hready, if_neg hready]
        exact ih (htidy p) buf' ms (hset h)

/-- A connection that reads on has the processor that has read the buffer. -/
theorem readLoop_processor (fuel : ℕ) (ht : c.Tidy) (hc : c.reading = false) (buf : List UInt8)
    (h : (readLoop u fuel c buf).reading) :
    (receiveLoop fuel c.processor buf).result = .ok (readLoop u fuel c buf).processor := by
  induction fuel generalizing c buf with
  | zero => rfl
  | succ fuel ih =>
    by_cases hbuf : buf = []
    · rw [readLoop, if_pos hbuf, receiveLoop, if_pos hbuf]
    rw [readLoop_succ u fuel c hbuf] at h ⊢
    rw [receiveLoop, if_neg hbuf]
    cases hr : c.processor.consume buf with
    | error ec =>
      rw [hr] at h
      replace h : (c.refuse u ec).reading = true := h
      have hmoves : Moves none c (c.refuse u ec) := refuse_moves u c ec
      rw [hmoves.reading, hc] at h
      cases h
    | ok r =>
      obtain ⟨p, buf'⟩ := r
      rw [hr] at h
      have htidy (p : Hybi13) : Tidy { c with processor := p } := ⟨ht.started, ht.writing⟩
      dsimp only at h ⊢
      by_cases hready : p.ready
      · rw [if_pos hready] at h ⊢
        rw [if_pos hready]
        rcases hm : p.getMessage with ⟨_ | m, q⟩
        · rw [hm] at h
          exact ih (htidy q) hc buf' h
        · rw [hm] at h
          have hd := deliver_moves u (htidy q).started m
          have hih := ih (Moves.tidy hd (htidy q)) ((Moves.reading hd).trans hc) buf' h
          rw [Moves.processor hd] at hih
          exact hih
      · rw [if_neg hready] at h ⊢
        rw [if_neg hready]
        exact ih (htidy p) hc buf' h

end loop

theorem handleReadFrame_error (u : User) (c : Connection) (e : ErrorCode) (buf : List UInt8) :
    Moves src { c with reading := false } (c.handleReadFrame u (some e) buf) := by
  unfold handleReadFrame
  dsimp only
  split_ifs
  · exact .refl
  · exact terminate_moves _ _
  · exact .refl
  · exact terminate_moves _ _
  · exact terminate_moves _ _

/-! ### Steps -/

/-- A step that is not a read is a sequence of moves. -/
theorem step_moves (u : User) (ht : c.Tidy) {a : Action} (ha : ∀ ec buf, a ≠ .read ec buf) :
    Moves none c (c.step u a) := by
  cases a with
  | call x => exact call_moves u c x
  | writeFrame =>
    unfold step
    dsimp only
    split_ifs
    · exact .refl
    · have hstill : Still c { c with dispatched := c.dispatched - 1 } := {}
      exact (hstill.trans (writeFrame_still ⟨ht.started, ht.writing⟩)).moves
  | written ec =>
    unfold step
    dsimp only
    split_ifs
    · exact .refl
    · exact handleWriteFrame_moves c ec
  | read ec buf => exact absurd rfl (ha ec buf)
  | timeout =>
    unfold step
    dsimp only
    split_ifs
    · exact handleCloseHandshakeTimeout_moves c none
    · exact .refl
  | shutdown =>
    unfold step
    cases hs : c.shutdowns with
    | nil => exact .refl
    | cons tstat rest => exact handleTerminate_moves u hs

/-- What moves keep, and does not depend on what is read, is kept by every step. -/
theorem step_invariant {P : Connection → Prop}
    (hmove : ∀ {src c c'}, Moves src c c' → P c → P c')
    (hset : ∀ {c p r}, P c → P { c with processor := p, reading := r }) (ht : c.Tidy) (h : P c)
    (a : Action) : P (c.step u a) := by
  by_cases ha : ∀ ec buf, a ≠ .read ec buf
  · exact hmove (step_moves u ht ha) h
  push Not at ha
  obtain ⟨ec, buf, rfl⟩ := ha
  unfold step
  dsimp only
  split_ifs
  · cases ec with
    | some e =>
      have hmoves : Moves none { c with reading := false } (c.handleReadFrame u (some e) buf) :=
        handleReadFrame_error u c e buf
      exact hmove hmoves (hset h)
    | none =>
      exact readLoop_messages (P := fun c _ => P c) hmove
        (fun ht hP => hmove (deliver_moves u ht.started _) hP) hset buf.length
        (c := { c with reading := false }) ⟨ht.started, ht.writing⟩ buf [] (hset h)
  · exact h

theorem step_tidy (u : User) (ht : c.Tidy) (a : Action) : (c.step u a).Tidy :=
  step_invariant (fun hm => Moves.tidy hm) (fun ht => ⟨ht.started, ht.writing⟩) ht ht a

end Connection

end PeerApi.Websocket
