import PeerApi.Websocket.Stream

/-! What is sent is received. A prepared message is a frame on the wire, so what one end
prepares the other delivers, in its order and unchanged. A data message may as well be cut
into frames anywhere, inside a character of a text too, with control frames between them:
it is delivered whole, after the control messages. And whatever a peer sends, the messages
delivered keep the rules. -/

namespace PeerApi.Websocket

open Base

variable {server : Bool} {maxSize : ℕ}

theorem Delivers.append {o o' o'' : Option Message} {fs fs' : List Frame} {ms ms' : List Message}
    (h : Delivers server maxSize o fs ms o') (h' : Delivers server maxSize o' fs' ms' o'') :
    Delivers server maxSize o (fs ++ fs') (ms ++ ms') o'' := by
  induction h with
  | nil o => exact h'
  | cons ha _ ih =>
    rw [List.append_assoc]
    exact .cons ha (ih h')

section frame

variable {o o' : Option Message} {f : Frame} {fs : List Frame} {ms : List Message}

/-- A control frame is a message, and what is under way stays so. -/
theorem Delivers.control (ha : f.Admissible server maxSize o) (hc : f.opcode.isControl)
    (rest : Delivers server maxSize o fs ms o') :
    Delivers server maxSize o (f :: fs)
      ({ opcode := f.opcode, payload := f.payload } :: ms) o' := by
  have hnext : f.next o = o := if_pos hc
  have hmessage : f.message o = some { opcode := f.opcode, payload := f.payload } := if_pos hc
  rw [← hnext] at rest
  have hcons := Delivers.cons ha rest
  rwa [hmessage] at hcons

/-- The last frame of a data message. -/
theorem Delivers.last (ha : f.Admissible server maxSize o) (hc : f.opcode.isControl = false)
    (hfin : f.fin) (rest : Delivers server maxSize none fs ms o') :
    Delivers server maxSize o (f :: fs) (f.extended o :: ms) o' := by
  have hnext : f.next o = none := by
    unfold Frame.next
    rw [hc, if_neg Bool.false_ne_true, if_pos hfin]
  have hmessage : f.message o = some (f.extended o) := by
    unfold Frame.message
    rw [hc, if_neg Bool.false_ne_true, if_pos hfin]
  rw [← hnext] at rest
  have hcons := Delivers.cons ha rest
  rwa [hmessage] at hcons

/-- A frame of a data message that goes on. -/
theorem Delivers.part (ha : f.Admissible server maxSize o) (hc : f.opcode.isControl = false)
    (hfin : f.fin = false) (rest : Delivers server maxSize (some (f.extended o)) fs ms o') :
    Delivers server maxSize o (f :: fs) ms o' := by
  have hnext : f.next o = some (f.extended o) := by
    unfold Frame.next
    rw [hc, if_neg Bool.false_ne_true, hfin, if_neg Bool.false_ne_true]
  have hmessage : f.message o = none := by
    unfold Frame.message
    rw [hc, if_neg Bool.false_ne_true, hfin, if_neg Bool.false_ne_true]
  rw [← hnext] at rest
  have hcons := Delivers.cons ha rest
  rwa [hmessage] at hcons

end frame

/-- A stream of admissible frames that leaves nothing under way. -/
theorem receiveAll_of_delivers {fs : List Frame} {ms : List Message} {bufs : List (List UInt8)}
    (hd : Delivers server maxSize none fs ms none) (hbufs : bufs.flatten = fs.flatMap Frame.bytes) :
    ∃ q, Between server maxSize none q ∧
      receiveAll (.new server maxSize) bufs = { messages := ms, result := .ok q } := by
  have hnew := between_new server maxSize
  obtain ⟨q, hq, hreceive⟩ := hnew.receive_delivers hd
  refine ⟨q, hq, ?_⟩
  have hend := hreceive []
  rw [List.append_nil] at hend
  rw [receiveAll_eq hnew.reading, hbufs, hend, receive_nil]
  exact congrArg (Received.mk · _) (List.append_nil ms)

/-! ### Prepared messages -/

/-- A message as it is delivered. -/
def Message.plain (m : Message) : Message := { opcode := m.opcode, payload := m.payload }

/-- The frame of a message. -/
def Message.frame (m : Message) (key : Option MaskingKey) (h : m.payload.length < 2 ^ 64) :
    Frame :=
  { opcode := m.opcode, fin := m.fin, key, payload := m.payload, size_lt := h }

/-- The key of a frame that is sent: only a client masks. -/
def sendingKey (sender : Bool) (key : MaskingKey) : Option MaskingKey :=
  if sender then none else some key

theorem bytes_frame (m : Message) (sender : Bool) (key : MaskingKey)
    (h : m.payload.length < 2 ^ 64) :
    (m.frame (sendingKey sender key) h).bytes =
      prepareHeader (.new m.opcode m.payload.length m.fin !sender)
          (if !sender then .masked m.payload.length key else .unmasked m.payload.length) ++
        if !sender then byteMask m.payload key else m.payload := by
  have hlen (mask : Bool) (k : Option MaskingKey) (hk : mask = k.isSome) :
      getHeaderLen (.new m.opcode m.payload.length m.fin mask) - basicHeaderLength =
        (sizeBytes m.payload.length ++ keyBytes k).length :=
    getHeaderLen_eq _ (getBasicSize_new ..) (by rw [getMasked_new, hk])
  cases sender with
  | true =>
    have htake := take_unmasked m.payload.length
    have hl := hlen false none rfl
    rw [keyBytes, Option.map_none, Option.getD_none, List.append_nil] at hl
    unfold prepareHeader
    rw [Bool.not_true, if_neg (by decide), if_neg (by decide), hl, htake]
    simp [Frame.bytes, Frame.extension, Frame.maskedPayload, Frame.basicHeader, Message.frame,
      sendingKey, keyBytes]
  | false =>
    have htake := take_masked m.payload.length key
    have hl := hlen true (some key) rfl
    rw [keyBytes, Option.map_some, Option.getD_some] at hl
    unfold prepareHeader
    rw [Bool.not_false, if_pos rfl, if_pos rfl, hl, htake]
    simp [Frame.bytes, Frame.extension, Frame.maskedPayload, Frame.basicHeader, Message.frame,
      sendingKey, keyBytes]

theorem prepareDataFrame_ok {sender : Hybi13} {key : MaskingKey} {m out : Message}
    (hlt : m.payload.length < 2 ^ 64) (h : sender.prepareDataFrame key m = .ok out) :
    out.bytes = (m.frame (sendingKey sender.server key) hlt).bytes ∧
      m.opcode.isControl = false ∧ (m.opcode = .text → IsText m.payload) := by
  unfold Hybi13.prepareDataFrame at h
  dsimp only at h
  by_cases hc : m.opcode.isControl
  · rw [if_pos hc] at h
    cases h
  · rw [if_neg hc] at h
    by_cases ht : (m.opcode = .text && !validate m.payload) = true
    · rw [if_pos ht] at h
      cases h
    · rw [if_neg ht] at h
      cases h
      refine ⟨?_, by simpa using hc, fun htext => ?_⟩
      · rw [bytes_frame]
        unfold Message.bytes
        have hlen : (if !sender.server then byteMask m.payload key else m.payload).length =
            m.payload.length := by
          split_ifs
          · rw [byteMask_eq, length_mask]
          · rfl
        dsimp only
        rw [hlen]
      · have hv : validate m.payload = true := by simpa [htext] using ht
        rwa [validate_eq_true, foldl_advance_iff] at hv

theorem prepareControl_ok {sender : Hybi13} {key : MaskingKey} {m out : Message}
    (hfin : m.fin) (hlt : m.payload.length < 2 ^ 64)
    (h : sender.prepareControl key m.opcode m.payload = .ok out) :
    out.bytes = (m.frame (sendingKey sender.server key) hlt).bytes ∧
      m.opcode.isControl ∧ m.payload.length ≤ payloadSizeBasic := by
  unfold Hybi13.prepareControl at h
  by_cases hc : m.opcode.isControl
  · rw [if_neg (by simp [hc])] at h
    by_cases hl : m.payload.length > payloadSizeBasic
    · rw [if_pos hl] at h
      cases h
    · rw [if_neg hl] at h
      cases h
      refine ⟨?_, hc, Nat.le_of_not_lt hl⟩
      rw [bytes_frame, hfin]
      rfl
  · rw [if_pos (by simp [hc])] at h
    cases h

theorem prepareControl_size {sender : Hybi13} {key : MaskingKey} {op : Opcode}
    {payload : List UInt8} {out : Message} (h : sender.prepareControl key op payload = .ok out) :
    payload.length < 2 ^ 64 := by
  unfold Hybi13.prepareControl at h
  by_contra hsize
  have hlong : payload.length > payloadSizeBasic := by
    unfold payloadSizeBasic
    omega
  rw [if_pos hlong] at h
  split_ifs at h

/-- The message is prepared for sending, with whatever key the generator gave. -/
def Hybi13.Prepares (sender : Hybi13) (m out : Message) : Prop :=
  ∃ key, sender.prepareDataFrame key m = .ok out ∨
    sender.prepareControl key m.opcode m.payload = .ok out

/-- A whole message that the receiver is ready to take: not one of the reserved kinds, and
no larger than it admits. -/
structure Message.Sendable (maxSize : ℕ) (m : Message) : Prop where
  fin : m.fin
  known : m.opcode.reserved = false ∧ m.opcode ≠ .continuation
  size : m.payload.length ≤ maxSize
  size_lt : m.payload.length < 2 ^ 64

theorem Message.Sendable.admissible {sender : Hybi13} {m out : Message} (h : m.Sendable maxSize)
    (hp : sender.Prepares m out) :
    ∃ f : Frame, f.bytes = out.bytes ∧ f.Admissible (!sender.server) maxSize none ∧
      f.message none = some m.plain ∧ f.next none = none := by
  obtain ⟨key, hkey⟩ := hp
  have hmask : (m.frame (sendingKey sender.server key) h.size_lt).key.isSome = !sender.server := by
    unfold Message.frame sendingKey
    cases sender.server <;> rfl
  have horder : m.opcode.isControl = false →
      (m.opcode = .continuation ↔ (none : Option Message).isSome) := fun _ =>
    ⟨fun he => absurd he h.known.2, fun he => (by cases he)⟩
  rcases hkey with hdata | hcontrol
  · obtain ⟨hbytes, hc, htext⟩ := prepareDataFrame_ok h.size_lt hdata
    refine ⟨_, hbytes.symm, ⟨⟨h.known.1, ⟨rfl, rfl, rfl⟩, fun hc' => ?_, horder, hmask⟩,
      fun _ => ?_, fun _ ht => ?_, fun ht _ => htext ht⟩, ?_, ?_⟩
    · cases hc.symm.trans hc'
    · exact (Nat.mod_le _ _).trans h.size
    · exact ⟨[], by rw [List.append_nil]; exact htext ht⟩
    · unfold Frame.message
      rw [if_neg (by simp [Message.frame, hc])]
      exact if_pos h.fin
    · unfold Frame.next
      rw [if_neg (by simp [Message.frame, hc])]
      exact if_pos h.fin
  · obtain ⟨hbytes, hc, hsize⟩ := prepareControl_ok h.fin h.size_lt hcontrol
    refine ⟨_, hbytes.symm, ⟨⟨h.known.1, ⟨rfl, rfl, rfl⟩, fun _ => ⟨h.fin, hsize⟩, horder, hmask⟩,
      fun hc' => ?_, fun hc' => ?_, fun ht => ?_⟩, if_pos hc, if_pos hc⟩
    · cases hc'.symm.trans hc
    · cases hc'.symm.trans hc
    · rw [show m.opcode = .text from ht] at hc
      cases hc

theorem exists_frames_of_prepares {sender : Hybi13} {ms outs : List Message}
    (hp : List.Forall₂ sender.Prepares ms outs) (hs : ∀ m ∈ ms, m.Sendable maxSize) :
    ∃ fs : List Frame, fs.flatMap Frame.bytes = outs.flatMap Message.bytes ∧
      Delivers (!sender.server) maxSize none fs (ms.map Message.plain) none := by
  induction hp with
  | nil => exact ⟨[], rfl, .nil none⟩
  | @cons m out ms outs hm _ ih =>
    obtain ⟨fs, hbytes, hd⟩ := ih fun m' hm' => hs m' (List.mem_cons_of_mem m hm')
    obtain ⟨f, hf, ha, hmessage, hnext⟩ := (hs m List.mem_cons_self).admissible hm
    refine ⟨f :: fs, ?_, ?_⟩
    · rw [List.flatMap_cons, List.flatMap_cons, hbytes, hf]
    · have hd' : Delivers (!sender.server) maxSize (f.next none) fs
          (ms.map Message.plain) none := by
        rwa [hnext]
      have hcons := Delivers.cons ha hd'
      rw [hmessage] at hcons
      exact hcons

/-- What one end prepares, the other end delivers: the same messages in the same order,
however the bytes are cut into buffers. -/
theorem prepared_delivered (sender : Hybi13) (maxSize : ℕ) (ms outs : List Message)
    (bufs : List (List UInt8)) (hp : List.Forall₂ sender.Prepares ms outs)
    (hs : ∀ m ∈ ms, m.Sendable maxSize) (hbufs : bufs.flatten = outs.flatMap Message.bytes) :
    (receiveAll (.new (!sender.server) maxSize) bufs).messages = ms.map Message.plain ∧
      ∃ q, (receiveAll (.new (!sender.server) maxSize) bufs).result = .ok q := by
  obtain ⟨fs, hbytes, hd⟩ := exists_frames_of_prepares hp hs
  obtain ⟨q, -, hr⟩ := receiveAll_of_delivers hd (hbufs.trans hbytes.symm)
  rw [hr]
  exact ⟨rfl, q, rfl⟩

/-- A client sends a text and a ping, and the server reads them in two buffers. -/
theorem prepared_delivered_greeting :
    (receiveAll (.new true 100)
        [[129, 131, 1, 2, 3, 4, 105, 193], [170, 137, 129, 1, 2, 3, 4, 6]]).messages =
      [{ opcode := .text, payload := [104, 195, 169] }, { opcode := .ping, payload := [7] }] :=
  (prepared_delivered (.new false) 100
    [{ opcode := .text, payload := [104, 195, 169] }, { opcode := .ping, payload := [7] }]
    [{ opcode := .text, payload := [105, 193, 170], header := [129, 131, 1, 2, 3, 4]
       prepared := true },
     { opcode := .ping, payload := [6], header := [137, 129, 1, 2, 3, 4], prepared := true }]
    _ (.cons ⟨0x04030201, .inl (by decide +kernel)⟩
      (.cons ⟨0x04030201, .inr (by decide +kernel)⟩ .nil))
    (by
      intro m hm
      rw [List.mem_cons, List.mem_singleton] at hm
      rcases hm with rfl | rfl
      · exact ⟨rfl, ⟨rfl, by decide⟩, by decide, by decide⟩
      · exact ⟨rfl, ⟨rfl, by decide⟩, by decide, by decide⟩)
    rfl).1

/-! ### Fragments -/

/-- A part of a data message, and the control frames that are sent before it. -/
structure Piece where
  controls : List Frame
  key : Option MaskingKey
  payload : List UInt8
  size_lt : payload.length < 2 ^ 64

def Piece.frame (pc : Piece) (op : Opcode) (fin : Bool) : Frame :=
  { opcode := op, fin, key := pc.key, payload := pc.payload, size_lt := pc.size_lt }

/-- The frames of a message: the last one has the flag, and only the first one the opcode. -/
def cut : Opcode → List Piece → List Frame
  | _, [] => []
  | op, [pc] => pc.controls ++ [pc.frame op true]
  | op, pc :: pcs => pc.controls ++ pc.frame op false :: cut .continuation pcs

def Frame.plain (f : Frame) : Message := { opcode := f.opcode, payload := f.payload }

def controlMessages (pcs : List Piece) : List Message :=
  pcs.flatMap fun pc => pc.controls.map Frame.plain

def wholePayload (pcs : List Piece) : List UInt8 := pcs.flatMap Piece.payload

/-- The control frames keep the rules, and every frame is masked as it must be. -/
structure Piece.Ok (server : Bool) (pc : Piece) : Prop where
  controls : ∀ f ∈ pc.controls, f.opcode.isControl ∧ ∀ o, f.HeaderOk server o
  masked : pc.key.isSome = server

theorem delivers_controls (o : Option Message) {fs : List Frame}
    (h : ∀ f ∈ fs, f.opcode.isControl ∧ ∀ o, f.HeaderOk server o) :
    Delivers server maxSize o fs (fs.map Frame.plain) o := by
  induction fs with
  | nil => exact .nil o
  | cons f fs ih =>
    obtain ⟨hc, hok⟩ := h f List.mem_cons_self
    have ha : f.Admissible server maxSize o := by
      refine ⟨hok o, fun hc' => ?_, fun hc' => ?_, fun ht => ?_⟩
      · cases hc'.symm.trans hc
      · cases hc'.symm.trans hc
      · rw [ht] at hc
        cases hc
    exact .control ha hc (ih fun f' hf' => h f' (List.mem_cons_of_mem f hf'))

/-- The message to which a frame with opcode `op` belongs, with `o` the one under way. -/
def under (o : Option Message) (op : Opcode) : Message := o.getD { opcode := op }

def Message.append (m : Message) (payload : List UInt8) : Message :=
  { m with payload := m.payload ++ payload }

theorem Piece.extended_frame (pc : Piece) (o : Option Message) (op : Opcode) (fin : Bool) :
    (pc.frame op fin).extended o = (under o op).append pc.payload := by
  cases o with
  | none => rfl
  | some m => rfl

theorem Piece.Ok.admissible {pc : Piece} {o : Option Message} {op : Opcode} {fin : Bool}
    {t : List UInt8} (h : pc.Ok server) (hop : op.isControl = false ∧ op.reserved = false)
    (horder : op = .continuation ↔ o.isSome)
    (hsize : ((under o op).payload ++ pc.payload).length ≤ maxSize)
    (htext : (under o op).opcode = .text → IsText ((under o op).payload ++ pc.payload ++ t))
    (hend : fin → t = []) : (pc.frame op fin).Admissible server maxSize o := by
  refine ⟨⟨hop.2, ⟨rfl, rfl, rfl⟩, fun hc => ?_, fun _ => horder, h.masked⟩, fun _ => ?_,
    fun _ ht => ?_, fun ht hfin => ?_⟩
  · cases hop.1.symm.trans hc
  · rw [pc.extended_frame]
    exact (Nat.mod_le _ _).trans hsize
  · rw [pc.extended_frame] at ht ⊢
    exact ⟨t, htext ht⟩
  · -- a text frame begins its message, so there is nothing before its payload
    have ht' : op = .text := ht
    subst ht'
    cases o with
    | none =>
      have hpayload := htext rfl
      rw [hend hfin, List.append_nil] at hpayload
      exact hpayload
    | some m => cases horder.mpr rfl

/-- The frames of a message from the one on with opcode `op`, with `o` under way. The
induction is on the pieces, each of which leaves the message so far under way. -/
theorem delivers_cut {pcs : List Piece} {o : Option Message} {op : Opcode}
    (hne : pcs ≠ []) (hok : ∀ pc ∈ pcs, pc.Ok server)
    (hop : op.isControl = false ∧ op.reserved = false) (horder : op = .continuation ↔ o.isSome)
    (hsize : ((under o op).payload ++ wholePayload pcs).length ≤ maxSize)
    (htext : (under o op).opcode = .text → IsText ((under o op).payload ++ wholePayload pcs)) :
    Delivers server maxSize o (cut op pcs)
      (controlMessages pcs ++ [(under o op).append (wholePayload pcs)]) none := by
  induction pcs generalizing o op with
  | nil => exact absurd rfl hne
  | cons pc pcs ih =>
    have hpc := hok pc List.mem_cons_self
    have hcontrols : Delivers server maxSize o pc.controls (pc.controls.map Frame.plain) o :=
      delivers_controls o hpc.controls
    have hwhole : wholePayload (pc :: pcs) = pc.payload ++ wholePayload pcs := List.flatMap_cons
    rw [hwhole, ← List.append_assoc] at hsize htext
    have hle : ((under o op).payload ++ pc.payload).length ≤ maxSize := by
      rw [List.length_append] at hsize
      omega
    cases pcs with
    | nil =>
      have ha : (pc.frame op true).Admissible server maxSize o :=
        hpc.admissible hop horder hle htext fun _ => rfl
      have hlast := Delivers.last ha hop.1 rfl (.nil none)
      rw [pc.extended_frame] at hlast
      have happend := hcontrols.append hlast
      simpa [cut, controlMessages, wholePayload] using happend
    | cons pc' pcs =>
      have ha : (pc.frame op false).Admissible server maxSize o :=
        hpc.admissible hop horder hle htext fun h => (by cases h)
      have hrest : Delivers server maxSize (some ((under o op).append pc.payload))
          (cut .continuation (pc' :: pcs)) (controlMessages (pc' :: pcs) ++
            [((under o op).append pc.payload).append (wholePayload (pc' :: pcs))]) none :=
        ih (List.cons_ne_nil pc' pcs) (fun q hq => hok q (List.mem_cons_of_mem pc hq))
          ⟨rfl, rfl⟩ ⟨fun _ => rfl, fun _ => rfl⟩ hsize htext
      rw [← pc.extended_frame o op false] at hrest
      have happend := hcontrols.append (.part ha hop.1 rfl hrest)
      rw [pc.extended_frame] at happend
      simpa [cut, controlMessages, wholePayload, under, Message.append] using happend

/-- A data message may be cut into frames anywhere, with control frames in between: the
control messages are delivered first and then the whole message. -/
theorem fragments_delivered (server : Bool) (maxSize : ℕ) (op : Opcode) (pcs : List Piece)
    (bufs : List (List UInt8)) (hne : pcs ≠ []) (hop : op = .text ∨ op = .binary)
    (hok : ∀ pc ∈ pcs, pc.Ok server) (hsize : (wholePayload pcs).length ≤ maxSize)
    (htext : op = .text → IsText (wholePayload pcs))
    (hbufs : bufs.flatten = (cut op pcs).flatMap Frame.bytes) :
    (receiveAll (.new server maxSize) bufs).messages =
        controlMessages pcs ++ [{ opcode := op, payload := wholePayload pcs }] ∧
      ∃ q, (receiveAll (.new server maxSize) bufs).result = .ok q := by
  have hd : Delivers server maxSize none (cut op pcs)
      (controlMessages pcs ++ [{ opcode := op, payload := wholePayload pcs }]) none := by
    refine delivers_cut hne hok ?_ ⟨fun h => ?_, fun h => (by cases h)⟩ hsize htext
    · rcases hop with rfl | rfl <;> exact ⟨rfl, rfl⟩
    · rw [h] at hop
      rcases hop with h | h <;> cases h
  obtain ⟨q, -, hr⟩ := receiveAll_of_delivers hd hbufs
  rw [hr]
  exact ⟨rfl, q, rfl⟩

/-- A text that is cut inside a character, with a ping in the gap. -/
theorem fragments_delivered_split :
    (receiveAll (.new false 100) [[1, 2, 104], [195, 137, 1, 7, 128], [1, 169]]).messages =
      [{ opcode := .ping, payload := [7] }, { opcode := .text, payload := [104, 195, 169] }] :=
  (fragments_delivered false 100 .text
    [{ controls := [], key := none, payload := [104, 195], size_lt := by decide },
     { controls := [{ opcode := .ping, fin := true, key := none, payload := [7]
                      size_lt := by decide }]
       key := none, payload := [169], size_lt := by decide }]
    _ (List.cons_ne_nil _ _) (.inl rfl)
    (by
      intro pc hpc
      rw [List.mem_cons, List.mem_singleton] at hpc
      rcases hpc with rfl | rfl
      · exact ⟨fun f hf => (by cases hf), rfl⟩
      · refine ⟨fun f hf => ?_, rfl⟩
        rw [List.mem_singleton] at hf
        subst hf
        exact ⟨rfl, fun o => ⟨rfl, ⟨rfl, rfl, rfl⟩, fun _ => ⟨rfl, by decide⟩,
          fun h => (by cases h), rfl⟩⟩)
    (by decide) (fun _ => ⟨['h', 'é'], by decide +kernel⟩) (by decide +kernel)).1

end PeerApi.Websocket
