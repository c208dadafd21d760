import PeerApi.Websocket.Course

/-! What one end of a connection has done, as the other end sees it. All that it has queued
is a sequence of frames, each of them a whole message, and no data comes after a close
frame. And the messages it has read decide what its user was told and what it has
acknowledged: it hands on the data messages up to the point where it is no longer open. -/

namespace PeerApi.Websocket

open Base Relation

/-! ### A part of a stream -/

theorem Frame.length_eq_of_prefix {f g : Frame} (h : g.bytes <+: f.bytes) :
    g.bytes.length = f.bytes.length := by
  obtain ⟨t, ht⟩ := h
  unfold Frame.bytes at ht
  simp only [List.cons_append, List.nil_append, List.cons.injEq, List.append_assoc] at ht
  obtain ⟨h0, h1, hrest⟩ := ht
  have hheader : g.basicHeader = f.basicHeader := by
    generalize g.basicHeader = hg, f.basicHeader = hf at h0 h1
    cases hg
    cases hf
    rw [BasicHeader.mk.injEq]
    exact ⟨h0, h1⟩
  have hlen : g.extension.length = f.extension.length := by
    rw [length_extension, length_extension, hheader]
  obtain ⟨hext, -⟩ := List.append_inj hrest hlen
  have hsize : g.payload.length = f.payload.length := by
    rw [← g.getPayloadSize_basicHeader [], ← f.getPayloadSize_basicHeader [], hheader, hext]
  simp [Frame.bytes, hlen, hsize]

/-- Of a stream of whole messages, as far as it has been read, no message is delivered
that was not sent, and none before those in front of it. -/
theorem Between.receive_messages_le {server : Bool} {maxSize : ℕ} {p : Hybi13}
    (h : Between server maxSize none p) {fs : List Frame} (hfin : ∀ f ∈ fs, f.fin)
    {s : List UInt8} (hs : s <+: fs.flatMap Frame.bytes) :
    (receive p s).messages <+: fs.map Frame.plain := by
  induction fs generalizing p s with
  | nil =>
    rw [List.prefix_nil.mp hs, receive_nil]
    exact List.prefix_rfl
  | cons f fs ih =>
    have hf := hfin f List.mem_cons_self
    have hmessage : f.message none = some f.plain := by
      unfold Frame.message
      rw [if_pos hf]
      split_ifs <;> rfl
    have hnext : f.next none = none := by
      unfold Frame.next
      rw [if_pos hf]
      split_ifs <;> rfl
    rw [List.flatMap_cons] at hs
    by_cases hwhole : f.bytes <+: s
    · obtain ⟨s, rfl⟩ := hwhole
      by_cases ha : f.Admissible server maxSize none
      · obtain ⟨q, hq, hreceive⟩ := h.receive_admissible ha
        rw [hnext] at hq
        rw [hreceive, hmessage]
        have hrest := ih hq (fun f' hf' => hfin f' (List.mem_cons_of_mem f hf'))
          ((List.prefix_append_right_inj _).mp hs)
        exact List.prefix_append_right_inj [f.plain] |>.mpr hrest
      · obtain ⟨ec, hec⟩ := h.receive_inadmissible ha s
        rw [hec]
        exact List.nil_prefix
    · have hpart : s <+: f.bytes :=
        (List.prefix_or_prefix_of_prefix hs (List.prefix_append ..)).resolve_right hwhole
      rw [h.receive_rest fun g hg => hwhole ?_]
      · exact List.nil_prefix
      · have hlen := Frame.length_eq_of_prefix (hg.trans hpart)
        rw [hpart.eq_of_length_le (hlen ▸ hg.length_le)]

/-! ### What is sent -/

/-- The message that is queued, as it was asked for. -/
def Obs.queued? : Obs → Option Message
  | sent op payload => some { opcode := op, payload }
  | pinged payload => some { opcode := .ping, payload }
  | ponged payload => some { opcode := .pong, payload }
  | closing code reason _ => some { opcode := .close, payload := closePayload code reason }
  | _ => none

/-- The data message that `send` took. -/
def Obs.sent? : Obs → Option Message
  | sent op payload => some { opcode := op, payload }
  | _ => none

/-- The data message that the message handler got. -/
def Obs.message? : Obs → Option Message
  | message m => some m
  | _ => none

def Message.isData (m : Message) : Bool := !m.opcode.isControl

namespace Connection

variable {src : Option Message} {c c' : Connection} {fs : List Frame}

/-- What was queued is `fs` on the wire. -/
structure Sends (fs : List Frame) (c : Connection) : Prop where
  plain : fs.map Frame.plain = c.obs.filterMap Obs.queued?
  fin : ∀ f ∈ fs, f.fin
  out : c.out = fs.flatMap Frame.bytes
  data : ∀ op payload, .sent op payload ∈ c.obs → op.isControl = false
  canClose : ∀ code reason ack, .closing code reason ack ∈ c.obs → CanClose code reason

/-- The frame of a message that is queued. -/
theorem exists_frame_of_control {p : Hybi13} {key : MaskingKey} {op : Opcode}
    {payload : List UInt8} {msg : Message} (h : p.prepareControl key op payload = .ok msg) :
    ∃ f : Frame, f.fin ∧ f.bytes = msg.bytes ∧ f.plain = { opcode := op, payload } := by
  have hsize := prepareControl_size h
  let m : Message := { opcode := op, payload }
  obtain ⟨hbytes, -⟩ := prepareControl_ok (m := m) rfl hsize h
  exact ⟨_, rfl, hbytes.symm, rfl⟩

theorem Queued.exists_frame {p : Hybi13} {o : Obs} {msg : Message} (h : Queued p o msg) :
    ∃ f : Frame, f.fin ∧ f.bytes = msg.bytes ∧ o.queued? = some f.plain := by
  cases h with
  | @sent op payload key msg hlt hp =>
    obtain ⟨hbytes, -⟩ := prepareDataFrame_ok (m := { opcode := op, payload }) hlt hp
    exact ⟨_, rfl, hbytes.symm, rfl⟩
  | pinged hp =>
    obtain ⟨f, hfin, hbytes, hplain⟩ := exists_frame_of_control hp
    exact ⟨f, hfin, hbytes, congrArg some hplain.symm⟩
  | ponged hp =>
    obtain ⟨f, hfin, hbytes, hplain⟩ := exists_frame_of_control hp
    exact ⟨f, hfin, hbytes, congrArg some hplain.symm⟩

/-- A message more in the queue. -/
theorem Sends.queue (h : Sends fs c) {o : Obs} {msg : Message} {f : Frame} (hfin : f.fin)
    (hbytes : f.bytes = msg.bytes) (hplain : o.queued? = some f.plain)
    (hdata : ∀ op payload, o = .sent op payload → op.isControl = false)
    (hclose : ∀ code reason ack, o = .closing code reason ack → CanClose code reason) :
    Sends (fs ++ [f]) (c.queue o msg) where
  plain := by simp [obs_queue, h.plain, hplain]
  fin := fun f' hf' => by
    rcases List.mem_append.mp hf' with hmem | hmem
    · exact h.fin f' hmem
    · rw [List.mem_singleton.mp hmem]
      exact hfin
  out := by simp [out_queue, h.out, hbytes]
  data := fun op payload ho => by
    rw [obs_queue] at ho
    rcases List.mem_append.mp ho with hmem | hmem
    · exact h.data op payload hmem
    · exact hdata op payload (List.mem_singleton.mp hmem).symm
  canClose := fun code reason ack ho => by
    rw [obs_queue] at ho
    rcases List.mem_append.mp ho with hmem | hmem
    · exact h.canClose code reason ack hmem
    · exact hclose code reason ack (List.mem_singleton.mp hmem).symm

/-- Nothing more in the queue. -/
theorem Sends.same (h : Sends fs c) {os : List Obs} (hos : ∀ o ∈ os, o.queued? = none)
    (hobs : c'.obs = c.obs ++ os) (hout : c'.out = c.out) : Sends fs c' where
  plain := by
    rw [hobs, List.filterMap_append, List.filterMap_eq_nil_iff.mpr hos, List.append_nil, h.plain]
  fin := h.fin
  out := hout.trans h.out
  data := fun op payload ho => by
    rw [hobs] at ho
    rcases List.mem_append.mp ho with hmem | hmem
    · exact h.data op payload hmem
    · cases hos _ hmem
  canClose := fun code reason ack ho => by
    rw [hobs] at ho
    rcases List.mem_append.mp ho with hmem | hmem
    · exact h.canClose code reason ack hmem
    · cases hos _ hmem

theorem Notices.queued {m : Message} {o : Obs} (h : Notices m o) : o.queued? = none := by
  cases h with
  | message => rfl
  | ping => rfl
  | pong => rfl

theorem Move.sends (h : Move src c c') (hs : Sends fs c) : ∃ fs', Sends fs' c' := by
  have hnone : ∀ o ∈ ([] : List Obs), o.queued? = none := fun o ho => (by cases ho)
  cases h with
  | still h => exact ⟨fs, hs.same hnone (by rw [h.obs, List.append_nil]) h.out⟩
  | queued _ h =>
    obtain ⟨f, hfin, hbytes, hplain⟩ := h.exists_frame
    refine ⟨_, hs.queue hfin hbytes hplain (fun op payload ho => ?_) fun code reason ack ho => ?_⟩
    · cases ho
      cases h with
      | sent hlt hp => exact (prepareDataFrame_ok (m := { opcode := op, payload }) hlt hp).2.1
    · cases ho
      cases h
  | @closing code reason ack terminal key msg _ _ h =>
    obtain ⟨hcan, hp⟩ := prepareClose_ok h
    obtain ⟨f, hfin, hbytes, hplain⟩ := exists_frame_of_control hp
    have hmsg : f.bytes = (if terminal then { msg with terminal := true } else msg).bytes := by
      cases terminal
      · exact hbytes
      · exact hbytes
    have hs' : Sends fs { c with
        state := .closing
        wasClean := c.wasClean || ack
        handshakeTimer := true } := hs.same hnone (List.append_nil _).symm rfl
    refine ⟨_, hs'.queue hfin hmsg (congrArg some hplain.symm) (fun op payload ho => ?_)
      fun code' reason' ack' ho => ?_⟩
    · cases ho
    · cases ho
      exact hcan
  | @noticed m o _ _ h =>
    have ho : ∀ o' ∈ [o], o'.queued? = none := fun o' ho' => by
      rw [List.mem_singleton.mp ho']
      exact h.queued
    exact ⟨fs, hs.same ho rfl rfl⟩
  | cleaned => exact ⟨fs, hs.same hnone (List.append_nil _).symm rfl⟩
  | terminated => exact ⟨fs, hs.same hnone (List.append_nil _).symm rfl⟩
  | announced _ h =>
    refine ⟨fs, hs.same (fun o ho => ?_) rfl rfl⟩
    rcases h with ⟨rfl, -⟩ | ⟨rfl, -⟩ | ⟨rfl, -⟩
    · cases ho
    · rw [List.mem_singleton.mp ho]
      rfl
    · rw [List.mem_singleton.mp ho]
      rfl

theorem Moves.sends (h : Moves src c c') (hs : Sends fs c) : ∃ fs', Sends fs' c' := by
  induction h with
  | refl => exact ⟨fs, hs⟩
  | tail _ h ih =>
    obtain ⟨fs', hs'⟩ := ih
    exact h.sends hs'

/-- What `send` took is what data there is among the frames. -/
theorem Sends.sent (h : Sends fs c) :
    c.obs.filterMap Obs.sent? = (fs.map Frame.plain).filter Message.isData := by
  rw [h.plain]
  have hdata := h.data
  generalize c.obs = os at hdata
  induction os with
  | nil => rfl
  | cons o os ih =>
    have hrest := ih fun op payload ho => hdata op payload (List.mem_cons_of_mem o ho)
    cases o with
    | sent op payload =>
      have hop := hdata op payload List.mem_cons_self
      simp [Obs.sent?, Obs.queued?, Message.isData, hop, hrest]
    | _ =>
      simpa [List.filterMap_cons, Obs.sent?, Obs.queued?, Message.isData, Opcode.isControl,
        Opcode.value] using hrest

theorem isActive_of_isClosing {o : Obs} (h : o.isClosing) : o.isActive = false := by
  cases o with
  | closing code reason ack => rfl
  | _ => cases h

/-- What an open connection did comes first. -/
theorem Course.split {s : SessionState} {ts : List TerminateStatus} {os : List Obs}
    (h : Course s ts os) : ∃ pre post, os = pre ++ post ∧ (∀ o ∈ pre, o.isActive) ∧
      ∀ o ∈ post, o.isActive = false := by
  cases h with
  | «open» hpre => exact ⟨os, [], by simp, hpre, fun o ho => (by cases ho)⟩
  | closing hpre ho hacks =>
    refine ⟨_, _, rfl, hpre, fun o' ho' => ?_⟩
    rcases List.mem_cons.mp ho' with rfl | hmem
    · exact isActive_of_isClosing ho
    · exact isActive_of_isClosing (isClosing_of_isAck (hacks o' hmem))
  | closed hpre hmid =>
    exact ⟨_, _, rfl, hpre, fun o ho => isActive_of_isClosing (hmid o ho)⟩
  | ended hpre hmid =>
    rw [List.append_assoc]
    refine ⟨_, _, rfl, hpre, fun o ho => ?_⟩
    rcases List.mem_append.mp ho with hmem | hmem
    · exact isActive_of_isClosing (hmid o hmem)
    · rw [List.mem_singleton.mp hmem]
      rfl

/-- Only close frames are queued by a connection that is not open. -/
theorem close_of_queued {o : Obs} {m : Message} (h : o.queued? = some m)
    (ho : o.isActive = false) : m.opcode = .close := by
  cases o with
  | closing code reason ack =>
    cases h
    rfl
  | sent => cases ho
  | pinged => cases ho
  | ponged => cases ho
  | _ => cases h

theorem Sends.not_close (h : Sends fs c) {o : Obs} (hmem : o ∈ c.obs) {m : Message}
    (hm : o.queued? = some m) (ho : o.isActive) : m.opcode ≠ .close := by
  cases o with
  | sent op payload =>
    cases hm
    intro hclose
    have hop := h.data op payload hmem
    rw [show op = .close from hclose] at hop
    cases hop
  | pinged payload =>
    cases hm
    exact fun h => (by cases h)
  | ponged payload =>
    cases hm
    exact fun h => (by cases h)
  | closing => cases ho
  | _ => cases hm

/-- No data is queued after a close frame. -/
theorem Sends.closed (h : Sends fs c) (hc : Course c.state c.shutdowns c.obs)
    {ms rest : List Message} {m : Message} (hm : m.opcode = .close)
    (heq : ms ++ m :: rest = fs.map Frame.plain) : rest.filter Message.isData = [] := by
  obtain ⟨pre, post, hobs, hpre, hpost⟩ := hc.split
  rw [h.plain, hobs, List.filterMap_append] at heq
  have hlate : ∀ m' ∈ post.filterMap Obs.queued?, m'.opcode = .close := fun m' hm' => by
    obtain ⟨o, ho, hq⟩ := List.mem_filterMap.mp hm'
    exact close_of_queued hq (hpost o ho)
  have hearly : ∀ m' ∈ pre.filterMap Obs.queued?, m'.opcode ≠ .close := fun m' hm' => by
    obtain ⟨o, ho, hq⟩ := List.mem_filterMap.mp hm'
    exact h.not_close (hobs ▸ List.mem_append_left post ho) hq (hpre o ho)
  have hrest : ∀ m' ∈ rest, m' ∈ post.filterMap Obs.queued? := fun m' hm' => by
    rcases List.append_eq_append_iff.mp heq with ⟨as, has, hcons⟩ | ⟨bs, -, hcons⟩
    · cases as with
      | nil =>
        rw [List.nil_append] at hcons
        rw [← hcons]
        exact List.mem_cons_of_mem m hm'
      | cons a as =>
        obtain ⟨rfl, -⟩ := List.cons.inj hcons
        exact absurd hm (hearly m (has ▸ List.mem_append_right ms List.mem_cons_self))
    · rw [hcons]
      exact List.mem_append_right bs (List.mem_cons_of_mem m hm')
  refine List.filter_eq_nil_iff.mpr fun m' hm' => ?_
  have hclose := hlate m' (hrest m' hm')
  simp [Message.isData, hclose, Opcode.isControl, Opcode.value]

/-! ### What is received -/

/-- Of the messages `ms` those are handled that came while the connection was open. A
connection that does nothing but acknowledge was closed by the first one that was not. -/
def Handles (ms : List Message) (src : Option Message) (c : Connection) : Prop :=
  ∃ ms₁ ms₂, ms = ms₁ ++ ms₂ ∧
    c.obs.filterMap Obs.message? = ms₁.filter Message.isData ∧ (c.state = .open → ms₂ = []) ∧
    ((∃ o ∈ c.obs, o.isAck) → (∀ o ∈ c.obs, o.isClosing → o.isAck) →
      ∃ m rest, ms₂ ++ src.toList = m :: rest ∧ m.opcode = .close)

/-- What a connection made of the messages `ms`, and of the control message `src` that it
deals with. -/
structure Receives (ms : List Message) (src : Option Message) (c : Connection) : Prop where
  handled : Handles ms src c
  acks : ∀ code reason, .closing code reason true ∈ c.obs →
    ∃ m ∈ ms ++ src.toList, m.opcode = .close ∧ (code, reason) = echo m.payload
  clean : c.wasClean → ∃ m ∈ ms ++ src.toList, m.opcode = .close

variable {ms : List Message}

/-- A connection that was told no message and acknowledged nothing. -/
theorem Receives.same (h : Receives ms src c) {os : List Obs} (hobs : c'.obs = c.obs ++ os)
    (hmessage : ∀ o ∈ os, o.message? = none) (hack : ∀ o ∈ os, o.isAck = false)
    (hstate : c'.state = .open → c.state = .open) (hclean : c'.wasClean → c.wasClean) :
    Receives ms src c' where
  handled := by
    obtain ⟨ms₁, ms₂, hms, hhandled, hopen, hclose⟩ := h.handled
    refine ⟨ms₁, ms₂, hms, ?_, fun ho => hopen (hstate ho), fun hex hall => hclose ?_ fun o ho =>
      hall o (hobs ▸ List.mem_append_left os ho)⟩
    · rw [hobs, List.filterMap_append, List.filterMap_eq_nil_iff.mpr hmessage, List.append_nil,
        hhandled]
    · obtain ⟨o, ho, ha⟩ := hex
      rw [hobs] at ho
      rcases List.mem_append.mp ho with hmem | hmem
      · exact ⟨o, hmem, ha⟩
      · rw [hack o hmem] at ha
        cases ha
  acks := fun code reason ho => by
    rw [hobs] at ho
    rcases List.mem_append.mp ho with hmem | hmem
    · exact h.acks code reason hmem
    · cases hack _ hmem
  clean := fun hc => h.clean (hclean hc)

theorem Queued.message {p : Hybi13} {o : Obs} {msg : Message} (h : Queued p o msg) :
    o.message? = none ∧ o.isAck = false := by
  cases h with
  | sent => exact ⟨rfl, rfl⟩
  | pinged => exact ⟨rfl, rfl⟩
  | ponged => exact ⟨rfl, rfl⟩

theorem Course.exists_closing {s : SessionState} {ts : List TerminateStatus} {os : List Obs}
    (h : Course s ts os) (hs : s = .closing) : ∃ o ∈ os, o.isClosing := by
  cases h with
  | closing hpre ho hacks => exact ⟨_, List.mem_append_right _ List.mem_cons_self, ho⟩
  | _ => cases hs

/-- A close frame is queued, and it may acknowledge the message at hand. -/
theorem Receives.closing (h : Receives ms src c) (hc : Course c.state c.shutdowns c.obs)
    {code : CloseStatus} {reason : List UInt8} {ack : Bool}
    (hstate : c.state = .open ∨ c.state = .closing ∧ ack)
    (hack : ack → ∃ m, src = some m ∧ m.opcode = .close ∧ (code, reason) = echo m.payload)
    (hobs : c'.obs = c.obs ++ [.closing code reason ack]) (hclosing : c'.state = .closing)
    (hclean : c'.wasClean = (c.wasClean || ack)) : Receives ms src c' := by
  refine ⟨?_, fun code' reason' ho => ?_, fun hwas => ?_⟩
  · obtain ⟨ms₁, ms₂, hms, hhandled, hopen, hclose⟩ := h.handled
    refine ⟨ms₁, ms₂, hms, by simp [hobs, hhandled, Obs.message?], fun ho => ?_, fun _ hall => ?_⟩
    · rw [hclosing] at ho
      cases ho
    · have hnew : ack := hall (.closing code reason ack) (by simp [hobs]) rfl
      rcases hstate with hs | ⟨hs, -⟩
      · obtain ⟨m, rfl, hm, -⟩ := hack hnew
        exact ⟨m, [], by simp [hopen hs], hm⟩
      · -- the connection was closing, so it has queued a close frame before
        obtain ⟨o, ho, hcl⟩ := hc.exists_closing hs
        have hmem : o ∈ c'.obs := hobs ▸ List.mem_append_left _ ho
        exact hclose ⟨o, ho, hall o hmem hcl⟩ fun o' ho' =>
          hall o' (hobs ▸ List.mem_append_left _ ho')
  · rw [hobs] at ho
    rcases List.mem_append.mp ho with hmem | hmem
    · exact h.acks code' reason' hmem
    · cases List.mem_singleton.mp hmem
      obtain ⟨m, rfl, hm, hecho⟩ := hack rfl
      exact ⟨m, by simp, hm, hecho⟩
  · rw [hclean, Bool.or_eq_true] at hwas
    rcases hwas with hold | hnew
    · exact h.clean hold
    · obtain ⟨m, rfl, hm, -⟩ := hack hnew
      exact ⟨m, by simp, hm⟩

theorem Notices.message_eq_none {m : Message} {o : Obs} (h : Notices m o)
    (hm : m.opcode.isControl) : o.message? = none ∧ o.isAck = false := by
  cases h with
  | message h =>
    rw [h] at hm
    cases hm
  | ping => exact ⟨rfl, rfl⟩
  | pong => exact ⟨rfl, rfl⟩

/-- A move that deals with no message or with a control message. -/
theorem Move.receives (h : Move src c c') (hsrc : ∀ m, src = some m → m.opcode.isControl)
    (hc : Course c.state c.shutdowns c.obs) (hr : Receives ms src c) : Receives ms src c' := by
  have hnil : ∀ o ∈ ([] : List Obs), o.message? = none := fun o ho => (by cases ho)
  have hnil' : ∀ o ∈ ([] : List Obs), o.isAck = false := fun o ho => (by cases ho)
  cases h with
  | still h =>
    refine hr.same (by rw [h.obs, List.append_nil]) hnil hnil' (fun hs => ?_) fun hs => ?_
    · exact h.state ▸ hs
    · exact h.wasClean ▸ hs
  | @queued o msg hopen h =>
    refine hr.same (obs_queue ..) (fun o' ho => ?_) (fun o' ho => ?_) (fun _ => hopen) fun hs => ?_
    · rw [List.mem_singleton.mp ho]
      exact h.message.1
    · rw [List.mem_singleton.mp ho]
      exact h.message.2
    · rwa [wasClean_queue] at hs
  | closing hstate hack =>
    exact hr.closing hc hstate hack (obs_queue ..) (state_queue ..) (wasClean_queue ..)
  | @noticed m o hopen hs h =>
    have hnone := h.message_eq_none (hsrc m hs)
    refine hr.same rfl (fun o' ho => ?_) (fun o' ho => ?_) (fun _ => hopen) id
    · rw [List.mem_singleton.mp ho]
      exact hnone.1
    · rw [List.mem_singleton.mp ho]
      exact hnone.2
  | @cleaned m hstate hs h => exact ⟨hr.handled, hr.acks, fun _ => ⟨m, by simp [hs], h⟩⟩
  | terminated =>
    exact hr.same (List.append_nil _).symm hnil hnil' (fun hs => (by cases hs)) id
  | announced _ h =>
    refine hr.same rfl (fun o ho => ?_) (fun o ho => ?_) id id
    · rcases h with ⟨rfl, -⟩ | ⟨rfl, -⟩ | ⟨rfl, -⟩
      · cases ho
      · rw [List.mem_singleton.mp ho]
        rfl
      · rw [List.mem_singleton.mp ho]
        rfl
    · rcases h with ⟨rfl, -⟩ | ⟨rfl, -⟩ | ⟨rfl, -⟩
      · cases ho
      · rw [List.mem_singleton.mp ho]
        rfl
      · rw [List.mem_singleton.mp ho]
        rfl

theorem Moves.receives (h : Moves src c c') (hsrc : ∀ m, src = some m → m.opcode.isControl)
    (hc : Course c.state c.shutdowns c.obs) (hr : Receives ms src c) : Receives ms src c' := by
  induction h with
  | refl => exact hr
  | tail h₁ h ih => exact h.receives hsrc (Moves.course h₁ hc) ih

theorem Moves.receives_none (h : Moves none c c') (hc : Course c.state c.shutdowns c.obs)
    (hr : Receives ms none c) : Receives ms none c' :=
  Moves.receives h (fun m hm => (by cases hm)) hc hr

theorem Course.isAck_eq_false {o : Obs} (hc : Course c.state c.shutdowns c.obs)
    (hs : c.state = .open) (ho : o ∈ c.obs) : o.isAck = false := by
  generalize c.shutdowns = ts, c.obs = os at hc ho
  rw [hs] at hc
  cases hc with
  | «open» hpre =>
    by_contra ha
    have hactive := hpre o ho
    rw [isActive_of_isClosing (isClosing_of_isAck (by simpa using ha))] at hactive
    cases hactive

/-- The message at hand came too late. -/
theorem Receives.late {m : Message} (h : Receives ms (some m) c) (hs : c.state ≠ .open) :
    Receives (ms ++ [m]) none c where
  handled := by
    obtain ⟨ms₁, ms₂, rfl, hhandled, -, hclose⟩ := h.handled
    exact ⟨ms₁, ms₂ ++ [m], by simp, hhandled, fun ho => absurd ho hs, by simpa using hclose⟩
  acks := by simpa using h.acks
  clean := by simpa using h.clean

/-- The message at hand has been dealt with. -/
theorem Receives.done {m : Message} (h : Receives ms (some m) c) (hm : m.opcode.isControl)
    (hc : Course c.state c.shutdowns c.obs) : Receives (ms ++ [m]) none c := by
  by_cases hs : c.state = .open
  · refine ⟨?_, by simpa using h.acks, by simpa using h.clean⟩
    obtain ⟨ms₁, ms₂, rfl, hhandled, hopen, -⟩ := h.handled
    refine ⟨ms₁ ++ [m], [], by simp [hopen hs], ?_, fun _ => rfl, ?_⟩
    · simp [hhandled, Message.isData, hm]
    · rintro ⟨o, ho, ha⟩
      rw [hc.isAck_eq_false hs ho] at ha
      cases ha
  · exact h.late hs

/-- One message more to deal with. -/
theorem Receives.begin (h : Receives ms none c) (m : Message) : Receives ms (some m) c := by
  refine ⟨?_, fun code reason ho => ?_, fun hs => ?_⟩
  · obtain ⟨ms₁, ms₂, hms, hhandled, hopen, hclose⟩ := h.handled
    refine ⟨ms₁, ms₂, hms, hhandled, hopen, fun hex hall => ?_⟩
    obtain ⟨m', rest, heq, hm'⟩ := hclose hex hall
    rw [Option.toList_none, List.append_nil] at heq
    exact ⟨m', rest ++ [m], by simp [heq], hm'⟩
  · obtain ⟨m', hm', hacks⟩ := h.acks code reason ho
    rw [Option.toList_none, List.append_nil] at hm'
    exact ⟨m', List.mem_append_left _ hm', hacks⟩
  · obtain ⟨m', hm', hclose⟩ := h.clean hs
    rw [Option.toList_none, List.append_nil] at hm'
    exact ⟨m', List.mem_append_left _ hm', hclose⟩

/-- The message handler gets a message. -/
theorem Receives.message {m : Message} (h : Receives ms none c)
    (hc : Course c.state c.shutdowns c.obs) (hopen : c.state = .open)
    (hm : m.opcode.isControl = false) :
    Receives (ms ++ [m]) none { c with obs := c.obs ++ [.message m] } := by
  have hbegin := h.begin m
  refine ⟨?_, fun code reason ho => ?_, by simpa using hbegin.clean⟩
  · obtain ⟨ms₁, ms₂, rfl, hhandled, hempty, -⟩ := h.handled
    refine ⟨ms₁ ++ [m], [], by simp [hempty hopen], ?_, fun _ => rfl, ?_⟩
    · simp [hhandled, Message.isData, hm, Obs.message?]
    · rintro ⟨o, ho, ha⟩
      rcases List.mem_append.mp ho with hmem | hmem
      · rw [hc.isAck_eq_false hopen hmem] at ha
        cases ha
      · rw [List.mem_singleton.mp hmem] at ha
        cases ha
  · rcases List.mem_append.mp ho with hmem | hmem
    · simpa using hbegin.acks code reason hmem
    · cases List.mem_singleton.mp hmem

/-- One message more. -/
theorem Receives.deliver (u : User) (h : Receives ms none c) (ht : c.Tidy)
    (hc : Course c.state c.shutdowns c.obs) (m : Message) :
    Receives (ms ++ [m]) none (c.deliver u m) := by
  cases hm : m.opcode.isControl with
  | true =>
    have hmoves := deliver_moves u ht.started m
    refine Receives.done ?_ hm (Moves.course hmoves hc)
    exact Moves.receives hmoves (fun m' hm' => by cases hm'; exact hm) hc (h.begin m)
  | false =>
    unfold Connection.deliver
    rw [hm, Bool.not_false, if_pos rfl]
    by_cases hopen : c.state = .open
    · rw [if_neg (not_not_intro hopen)]
      have hnoticed : Move (some m) c { c with obs := c.obs ++ [.message m] } :=
        .noticed hopen rfl (.message hm)
      exact Moves.receives_none (calls_moves u _ _) (hnoticed.course hc)
        (h.message hc hopen hm)
    · rw [if_pos hopen]
      exact (h.begin m).late hopen

/-! ### Reading -/

theorem Sends.set (h : Sends fs c) (p : Hybi13) (r : Bool) :
    Sends fs { c with processor := p, reading := r } :=
  ⟨h.plain, h.fin, h.out, h.data, h.canClose⟩

theorem Receives.set (h : Receives ms src c) (p : Hybi13) (r : Bool) :
    Receives ms src { c with processor := p, reading := r } :=
  ⟨h.handled, h.acks, h.clean⟩

/-- A buffer is read, message by message. -/
theorem Receives.readLoop (u : User) (h : Receives ms none c) (ht : c.Tidy)
    (hc : Course c.state c.shutdowns c.obs) (buf : List UInt8) :
    Receives (ms ++ (receive c.processor buf).messages) none
      (readLoop u buf.length { c with reading := false } buf) := by
  let P (c : Connection) (ms : List Message) : Prop :=
    Course c.state c.shutdowns c.obs ∧ Receives ms none c
  have hloop : P (Connection.readLoop u buf.length { c with reading := false } buf)
      (ms ++ (receive c.processor buf).messages) :=
    readLoop_messages (P := P)
      (fun hm hP => ⟨Moves.course hm hP.1, Moves.receives_none hm hP.1 hP.2⟩)
      (fun ht hP => ⟨Moves.course (deliver_moves u ht.started _) hP.1, hP.2.deliver u ht hP.1 _⟩)
      (fun hP => ⟨hP.1, hP.2.set _ _⟩) buf.length (c := { c with reading := false })
      ⟨ht.started, ht.writing⟩ buf ms ⟨hc, h.set _ _⟩
  exact hloop.2

end Connection

end PeerApi.Websocket
