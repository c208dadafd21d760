import PeerApi.Websocket.Buffers

/-! What a stream of bytes means. A frame says what it carries, and the messages of a
stream are put together from its frames, as far as they are admissible: a message is one
data frame and its continuations, control frames may stand between them, and each frame
keeps the rules of the protocol. The processor delivers exactly the messages of the
admissible frames at the beginning of the stream. -/

namespace PeerApi.Websocket

open Base

/-- A frame and what it carries, before it is masked. -/
structure Frame where
  opcode : Opcode
  fin : Bool
  rsv1 : Bool := false
  rsv2 : Bool := false
  rsv3 : Bool := false
  key : Option MaskingKey
  payload : List UInt8
  size_lt : payload.length < 2 ^ 64

namespace Frame

def basicHeader (f : Frame) : BasicHeader :=
  .new f.opcode f.payload.length f.fin f.key.isSome f.rsv1 f.rsv2 f.rsv3

def extension (f : Frame) : List UInt8 := sizeBytes f.payload.length ++ keyBytes f.key

def maskedPayload (f : Frame) : List UInt8 :=
  match f.key with
  | none => f.payload
  | some key => byteMask f.payload key

/-- The frame on the wire. -/
def bytes (f : Frame) : List UInt8 :=
  [f.basicHeader.b0, f.basicHeader.b1] ++ (f.extension ++ f.maskedPayload)

/-- The message to which a data frame belongs, with `o` the one under way, once the frame
is in it. -/
def extended (o : Option Message) (f : Frame) : Message :=
  match o with
  | none => { opcode := f.opcode, payload := f.payload }
  | some m => { m with payload := m.payload ++ f.payload }

/-- The message that the frame ends. -/
def message (o : Option Message) (f : Frame) : Option Message :=
  if f.opcode.isControl then some { opcode := f.opcode, payload := f.payload }
  else if f.fin then some (f.extended o)
  else none

/-- The message under way after the frame. -/
def next (o : Option Message) (f : Frame) : Option Message :=
  if f.opcode.isControl then o
  else if f.fin then none
  else some (f.extended o)

/-- The rules for the header of a frame that a server or a client receives. -/
structure HeaderOk (server : Bool) (o : Option Message) (f : Frame) : Prop where
  known : f.opcode.reserved = false
  flags : f.rsv1 = false ∧ f.rsv2 = false ∧ f.rsv3 = false
  control : f.opcode.isControl → f.fin ∧ f.payload.length ≤ payloadSizeBasic
  order : f.opcode.isControl = false → (f.opcode = .continuation ↔ o.isSome)
  masked : f.key.isSome = server

/-- The rules of the protocol. The size is that of the message so far in a machine word,
and of a text only the beginning must be one if the message goes on, or if its last frame
is a continuation. -/
structure Admissible (server : Bool) (maxSize : ℕ) (o : Option Message) (f : Frame) : Prop where
  header : f.HeaderOk server o
  size : f.opcode.isControl = false → (f.extended o).payload.length % 2 ^ 64 ≤ maxSize
  text : f.opcode.isControl = false → (f.extended o).opcode = .text →
    ∃ t, IsText ((f.extended o).payload ++ t)
  complete : f.opcode = .text → f.fin → IsText f.payload

end Frame

/-- The messages of a sequence of admissible frames and the message left under way. -/
inductive Delivers (server : Bool) (maxSize : ℕ) :
    Option Message → List Frame → List Message → Option Message → Prop
  | nil (o : Option Message) : Delivers server maxSize o [] [] o
  | cons {o o' : Option Message} {f : Frame} {fs : List Frame} {ms : List Message}
      (h : f.Admissible server maxSize o) (rest : Delivers server maxSize (f.next o) fs ms o') :
      Delivers server maxSize o (f :: fs) ((f.message o).toList ++ ms) o'

/-! ### The header -/

namespace Frame

/-- A frame that begins a text is no continuation. -/
theorem HeaderOk.extended_opcode {server : Bool} {o : Option Message} {f : Frame}
    (h : f.HeaderOk server o) (htext : f.opcode = .text) :
    o = none ∧ (f.extended o).opcode = .text := by
  have ho := h.order (by rw [htext]; rfl)
  rw [htext] at ho
  cases o with
  | none => exact ⟨rfl, htext⟩
  | some m => cases ho.mpr rfl

theorem length_extension (f : Frame) :
    f.extension.length = getHeaderLen f.basicHeader - basicHeaderLength := by
  exact (getHeaderLen_eq f.basicHeader (getBasicSize_new ..) (getMasked_new ..)).symm

@[simp] theorem length_maskedPayload (f : Frame) : f.maskedPayload.length = f.payload.length := by
  unfold maskedPayload
  cases f.key with
  | none => rfl
  | some key => exact (congrArg List.length (byteMask_eq key f.payload)).trans (length_mask ..)

theorem basicValue_gt (size : ℕ) :
    (basicValue size).toNat > payloadSizeBasic ↔ payloadSizeBasic < size := by
  rcases size_cases size with ⟨h1, hv, -⟩ | ⟨h1, -, hv, -⟩ | ⟨h1, hv, -⟩
  · rw [hv, UInt8.toNat_ofNat', payloadSizeBasic]
    omega
  · rw [hv]
    exact ⟨fun _ => h1, fun _ => by decide⟩
  · rw [hv]
    exact ⟨fun _ => by unfold payloadSizeBasic; omega, fun _ => by decide⟩

theorem ite_some_eq_none {α : Type*} {c : Prop} [Decidable c] {a : α} {o : Option α} :
    (if c then some a else o) = none ↔ ¬ c ∧ o = none := by
  split_ifs with h <;> simp [h]

theorem validateIncomingBasicHeader_eq_none (f : Frame) (server : Bool) (o : Option Message) :
    validateIncomingBasicHeader f.basicHeader server o.isNone = none ↔ f.HeaderOk server o := by
  have hcontinuation : Opcode.isControl .continuation = false := rfl
  unfold validateIncomingBasicHeader basicHeader
  simp only [getOpcode_new, getBasicSize_new, getRsv1_new, getRsv2_new, getRsv3_new, getFin_new,
    getMasked_new, Opcode.not_invalid, ite_some_eq_none, Bool.and_eq_true, decide_eq_true_eq,
    basicValue_gt]
  constructor
  · rintro ⟨h1, h2, h3, h4, -, h6, h7, h8, h9, h10, -⟩
    refine ⟨by simpa using h4, by simp_all, fun hc => ?_, fun hc => ?_, ?_⟩
    · simp_all
    · cases o <;> simp_all
    · cases server <;> cases hk : f.key <;> simp_all
  · rintro ⟨h1, ⟨h2, h3, h4⟩, h5, h6, h7⟩
    refine ⟨?_, by simp [h2], by simp [h3, h4], by simp [h1], by simp, ?_, ?_, ?_, ?_, ?_, trivial⟩
    · rintro ⟨hc, hlt⟩
      have := (h5 hc).2
      omega
    · rintro ⟨hc, hf⟩
      simp [(h5 hc).1] at hf
    · rintro ⟨hn, ho⟩
      have := (h6 (ho ▸ hcontinuation)).mp ho
      simp_all
    · rintro ⟨⟨hn, hc⟩, ho⟩
      have := (h6 (by simpa using hc)).mpr (by cases o <;> simp_all)
      exact absurd this (by simpa using ho)
    · simp [h7]
    · simp [h7]

theorem getPayloadSize_basicHeader (f : Frame) (rest : List UInt8) :
    getPayloadSize f.basicHeader ⟨f.extension ++ rest⟩ = f.payload.length := by
  rw [extension, List.append_assoc]
  exact getPayloadSize_eq _ (getBasicSize_new ..) f.size_lt _

theorem getMaskingKey_basicHeader (f : Frame) (rest : List UInt8) :
    getMaskingKey f.basicHeader ⟨f.extension ++ rest⟩ = f.key.getD 0 :=
  getMaskingKey_eq _ (getBasicSize_new ..) (getMasked_new ..) rest

theorem validateIncomingExtendedHeader_basicHeader (f : Frame) (rest : List UInt8) :
    validateIncomingExtendedHeader f.basicHeader ⟨f.extension ++ rest⟩ = none := by
  have hsize : getBasicSize f.basicHeader = basicValue f.payload.length := getBasicSize_new ..
  unfold validateIncomingExtendedHeader
  rw [f.getPayloadSize_basicHeader, hsize]
  rcases size_cases f.payload.length with ⟨h1, hv, -⟩ | ⟨h1, -, hv, -⟩ | ⟨h1, hv, -⟩
  · obtain ⟨h16, h64⟩ := ofNat_ne_code _ h1
    rw [hv, if_neg fun h => h16 h.1, if_neg fun h => h64 h.1]
  · rw [hv, if_neg fun h => (Nat.not_le.mpr h1) h.2, if_neg fun h => (by cases h.1)]
  · rw [hv, if_neg fun h => (by cases h.1), if_neg fun h => (Nat.not_le.mpr h1) h.2]

end Frame

/-- Whatever header is valid, a frame begins with it. -/
theorem exists_frame (h : BasicHeader) {ext pay rest : List UInt8}
    (hext : ext.length = getHeaderLen h - basicHeaderLength)
    (hv : validateIncomingExtendedHeader h ⟨ext ++ rest⟩ = none)
    (hpay : pay.length = getPayloadSize h ⟨ext ++ rest⟩) :
    ∃ f : Frame, f.bytes = [h.b0, h.b1] ++ (ext ++ pay) := by
  obtain ⟨sizes, keys, rfl, hsizes⟩ : ∃ sizes keys, ext = sizes ++ keys ∧
      sizes.length = getMaskingKeyOffset h := by
    refine ⟨_, _, (List.take_append_drop (getMaskingKeyOffset h) ext).symm, ?_⟩
    rw [List.length_take, hext, getHeaderLen]
    omega
  have hkeys : keys.length = if getMasked h then 4 else 0 := by
    rw [List.length_append, getHeaderLen] at hext
    omega
  unfold validateIncomingExtendedHeader at hv
  simp only [Frame.ite_some_eq_none] at hv
  obtain ⟨h16, h64, -⟩ := hv
  rw [List.append_assoc] at h16 h64 hpay
  obtain ⟨hlt, hbasic, hbytes⟩ := exists_size h hsizes (keys ++ rest)
    (fun hb => Nat.lt_of_not_le fun hle => h16 ⟨hb, hle⟩)
    (fun hb => Nat.lt_of_not_le fun hle => h64 ⟨hb, hle⟩)
  rw [← hpay] at hlt hbasic hbytes
  cases hm : getMasked h with
  | false =>
    rw [hm] at hkeys
    refine ⟨⟨getOpcode h, getFin h, getRsv1 h, getRsv2 h, getRsv3 h, none, pay, hlt⟩, ?_⟩
    have hnew := new_get h hbasic.symm
    rw [hm] at hnew
    rw [List.eq_nil_of_length_eq_zero hkeys]
    unfold Frame.bytes Frame.basicHeader Frame.extension Frame.maskedPayload
    dsimp only
    rw [Option.isSome_none, hnew, hbytes]
    rfl
  | true =>
    replace hkeys : keys.length = 4 := by rw [hkeys, hm, if_pos rfl]
    have hkey : MaskingKey.c (UInt32.ofNat (ofBytes keys)) = keys := by
      have hlt := ofBytes_lt keys
      rw [hkeys] at hlt
      rw [MaskingKey.c, UInt32.toNat_ofNat', Nat.mod_eq_of_lt (by omega)]
      exact toBytes_of_length hkeys
    have hlen : (byteMask pay (UInt32.ofNat (ofBytes keys))).length = pay.length := by
      rw [byteMask_eq, length_mask]
    refine ⟨⟨getOpcode h, getFin h, getRsv1 h, getRsv2 h, getRsv3 h,
      some (UInt32.ofNat (ofBytes keys)), byteMask pay (UInt32.ofNat (ofBytes keys)),
      hlen.symm ▸ hlt⟩, ?_⟩
    have hnew := new_get h hbasic.symm
    rw [hm] at hnew
    unfold Frame.bytes Frame.basicHeader Frame.extension Frame.maskedPayload
    dsimp only
    rw [Option.isSome_some, hlen, hnew, hbytes, byteMask_eq, byteMask_eq, mask_mask]
    unfold keyBytes
    rw [Option.map_some, Option.getD_some, hkey]

/-! ### One frame -/

/-- The processor stands between two frames, with the message `o` under way. -/
structure Between (server : Bool) (maxSize : ℕ) (o : Option Message) (p : Hybi13) : Prop where
  server_eq : p.server = server
  maxSize_eq : p.maxMessageSize = maxSize
  state : p.state = .headerBasic
  needed : p.bytesNeeded = basicHeaderLength
  extended : p.extendedHeader = {}
  message : p.dataMsg.msgPtr = o
  text : ∀ m, o = some m → m.opcode = .text →
    p.dataMsg.validator.state = m.payload.foldl advance utf8Accept ∧
      m.payload.foldl advance utf8Accept ≠ utf8Reject

section frame

open Hybi13

variable {server : Bool} {maxSize : ℕ} {o : Option Message} {p : Hybi13}

theorem Between.reading (h : Between server maxSize o p) : p.Reading where
  sound := by
    refine ⟨fun _ => h.needed.le, ?_, fun he => ?_, fun hm => ?_, fun hm => ?_, ?_⟩
    · rw [h.extended]
      rfl
    · cases h.state.symm.trans he
    · rcases hm with hm | hm <;> cases h.state.symm.trans hm
    · cases h.state.symm.trans hm
    · rw [h.state]
      exact ⟨fun h => (by cases h), fun h => (by cases h)⟩
  notReady := by
    rw [h.state]
    exact fun h => (by cases h)
  needed := h.needed ▸ Nat.two_pos

/-- The processor with a basic header, before it is looked at. -/
def Hybi13.begun (p : Hybi13) (h : BasicHeader) : Hybi13 :=
  { p with basicHeader := h, bytesNeeded := 0 }

/-- The processor before the rest of the header. -/
def Hybi13.extending (p : Hybi13) (h : BasicHeader) : Hybi13 :=
  { p.begun h with
    state := .headerExtended
    cursor := 0
    bytesNeeded := getHeaderLen h - basicHeaderLength }

/-- An extended header as it stands in its array. -/
def padded (ext : List UInt8) : ExtendedHeader := ⟨ext ++ List.replicate (12 - ext.length) 0⟩

/-- The processor once the header of a frame with a payload of `n` bytes is read. -/
def Hybi13.started (p : Hybi13) (h : BasicHeader) (ext : List UInt8) (n : ℕ) : Hybi13 :=
  { p.extending h with
    state := .application
    bytesNeeded := n
    cursor := ext.length
    extendedHeader := padded ext }

theorem Between.consume_basic (h : Between server maxSize o p) (hd : BasicHeader)
    (rest : List UInt8) :
    p.consume ([hd.b0, hd.b1] ++ rest) =
      (p.begun hd).endBasicHeader >>= fun q => q.consume rest := by
  have hlen : [hd.b0, hd.b1].length = p.bytesNeeded := h.needed.symm
  have hread : p.readField [hd.b0, hd.b1] = .ok (p.begun hd) := by
    unfold readField
    rw [h.state]
    simp [putBasic, h.needed, basicHeaderLength, begun, h.state]
  have hend : (p.begun hd).endField = (p.begun hd).endBasicHeader := by
    unfold endField
    rw [show (p.begun hd).state = .headerBasic from h.state]
  rw [consume_field h.reading.sound h.reading.notReady hlen, hread, ← hend]
  rfl

theorem Between.sound_extending (h : Between server maxSize o p) (hd : BasicHeader) :
    (p.extending hd).Sound := by
  refine ⟨fun h => (by cases h), h.reading.sound.array, fun _ => ?_, ?_, fun h => (by cases h), ?_⟩
  · exact (Nat.zero_add _).trans_le (getHeaderLen_le _)
  · rintro (h | h) <;> cases h
  · exact ⟨fun h => (by cases h), fun h => (by cases h)⟩

theorem endBasicHeader_begun {hd : BasicHeader}
    (hv : validateIncomingBasicHeader hd p.server p.dataMsg.msgPtr.isNone = none) :
    (p.begun hd).endBasicHeader = .ok (p.extending hd) := by
  unfold endBasicHeader
  rw [show validateIncomingBasicHeader (p.begun hd).basicHeader (p.begun hd).server
    (p.begun hd).dataMsg.msgPtr.isNone = none from hv]
  rfl

theorem Between.consume_extended (h : Between server maxSize o p) {hd : BasicHeader}
    {ext : List UInt8} (hext : ext.length = getHeaderLen hd - basicHeaderLength)
    (rest : List UInt8) :
    (p.extending hd).consume (ext ++ rest) =
      match validateIncomingExtendedHeader hd (padded ext) with
      | some ec => .error ec
      | none => (p.started hd ext (getPayloadSize hd (padded ext))).startFrame >>= fun q =>
          q.consume rest := by
  have hextend : (p.extending hd).extend ext =
      { p.started hd ext 0 with state := .headerExtended } := by
    have harray : (p.extending hd).extendedHeader = {} := h.extended
    have hn : (p.extending hd).bytesNeeded - ext.length = 0 := by
      rw [hext]
      exact Nat.sub_self _
    have hc : (p.extending hd).cursor + ext.length = ext.length := Nat.zero_add _
    have hb : copyTo ({} : ExtendedHeader).bytes (p.extending hd).cursor ext =
        (padded ext).bytes := by
      change copyTo (List.replicate maxExtendedHeaderLength 0) 0 ext = _
      rw [copyTo, List.take_zero, List.nil_append, zero_add, List.drop_replicate]
      rfl
    unfold extend
    rw [harray, hn, hc, hb]
    rfl
  have hread : (p.extending hd).readField ext = .ok ((p.extending hd).extend ext) := rfl
  rw [consume_field (h.sound_extending hd) (fun h => (by cases h)) hext, hread, hextend]
  change (match validateIncomingExtendedHeader hd (padded ext) with
    | some ec => Except.error ec
    | none => (p.started hd ext (getPayloadSize hd (padded ext))).startFrame) >>= _ = _
  cases validateIncomingExtendedHeader hd (padded ext) <;> rfl

/-- The processor before the payload of a frame. -/
abbrev Hybi13.startedFrame (p : Hybi13) (f : Frame) : Hybi13 :=
  p.started f.basicHeader f.extension f.payload.length

theorem Between.consume_header (h : Between server maxSize o p) {f : Frame}
    (hok : f.HeaderOk server o) (rest : List UInt8) :
    p.consume (f.bytes ++ rest) =
      (p.startedFrame f).startFrame >>= fun q => q.consume (f.maskedPayload ++ rest) := by
  have hv := (f.validateIncomingBasicHeader_eq_none server o).mpr hok
  rw [← h.server_eq, ← h.message] at hv
  rw [Frame.bytes, List.append_assoc, List.append_assoc, h.consume_basic, endBasicHeader_begun hv]
  change (p.extending f.basicHeader).consume _ = _
  rw [h.consume_extended f.length_extension]
  unfold padded
  rw [f.validateIncomingExtendedHeader_basicHeader, f.getPayloadSize_basicHeader]

/-- The payload of a frame, from the state in which its message has been set up. -/
theorem consume_payload {q : Hybi13} {f : Frame} {m : Message} {v : Validator} (hq : q.Sound)
    (hs : q.state = .application) (hh : q.basicHeader = f.basicHeader)
    (hn : q.bytesNeeded = f.payload.length)
    (hcur : q.current = ⟨some m, prepareMaskingKey (f.key.getD 0), v⟩) (rest : List UInt8) :
    q.consume (f.maskedPayload ++ rest) =
      if m.opcode = .text ∧ (v.decode f.payload).2 = false then .error .invalidUtf8
      else
        (q.stored ⟨some { m with payload := m.payload ++ f.payload },
          (q.unmask f.maskedPayload).2, if m.opcode = .text then (v.decode f.payload).1 else v⟩
          f.payload.length).endFrame >>= fun r => r.consume rest := by
  have hunmask : (q.unmask f.maskedPayload).1 = f.payload := by
    have hmasked : getMasked q.basicHeader = f.key.isSome := by
      rw [hh]
      exact getMasked_new ..
    unfold unmask Frame.maskedPayload
    rw [hmasked, hcur]
    cases f.key with
    | none => rfl
    | some key =>
      rw [Option.isSome_some, if_pos rfl, Option.getD_some,
        ((turned_prepare key).byteMaskCirc _).1]
      dsimp only
      rw [byteMask_eq, mask_mask]
  have hread : q.readField f.maskedPayload = q.processPayloadBytes f.maskedPayload := by
    unfold readField
    rw [hs]
  have hready : q.state ≠ .ready := by
    rw [hs]
    exact fun h => (by cases h)
  rw [consume_field hq hready (by rw [f.length_maskedPayload, hn]), hread,
    processPayloadBytes_eq hcur, hunmask, f.length_maskedPayload]
  by_cases hbad : m.opcode = .text ∧ (v.decode f.payload).2 = false
  · rw [if_pos hbad, if_pos hbad]
    rfl
  · rw [if_neg hbad, if_neg hbad]
    generalize hr : q.stored _ f.payload.length = r
    have hend : r.endField = r.endFrame := by
      unfold endField
      rw [← hr, state_stored, hs]
    rw [← hend]
    rfl

theorem length_padded {hd : BasicHeader} {ext : List UInt8}
    (hext : ext.length = getHeaderLen hd - basicHeaderLength) :
    (padded ext).bytes.length = maxExtendedHeaderLength := by
  have hle : ext.length ≤ 12 := hext.trans_le (getHeaderLen_le hd)
  unfold padded maxExtendedHeaderLength
  rw [List.length_append, List.length_replicate]
  omega

theorem getOpcode_started (p : Hybi13) (f : Frame) :
    getOpcode (p.startedFrame f).basicHeader = f.opcode := getOpcode_new ..

theorem getMaskingKey_started (p : Hybi13) (f : Frame) :
    getMaskingKey (p.startedFrame f).basicHeader (p.startedFrame f).extendedHeader = f.key.getD 0 :=
  f.getMaskingKey_basicHeader _

def Hybi13.finished (p : Hybi13) : Hybi13 := { p with state := .ready }

theorem endFrame_eq {q : Hybi13} {f : Frame} (hh : q.basicHeader = f.basicHeader) :
    q.endFrame =
      if f.fin then
        if f.opcode = .text ∧ q.current.validator.complete = false then .error .invalidUtf8
        else .ok q.finished
      else .ok q.resetHeaders := by
  have hfin : getFin q.basicHeader = f.fin := by
    rw [hh]
    exact getFin_new ..
  have hopcode : getOpcode q.basicHeader = f.opcode := by
    rw [hh]
    exact getOpcode_new ..
  unfold endFrame finalizeMessage
  rw [hfin, hopcode]
  rfl

theorem Between.consume_control (h : Between server maxSize o p) {f : Frame}
    (hok : f.HeaderOk server o) (hc : f.opcode.isControl) :
    ∃ q, q.state = .ready ∧
      q.getMessage.1 = some { opcode := f.opcode, payload := f.payload } ∧
      Between server maxSize o q.getMessage.2 ∧
      ∀ rest, p.consume (f.bytes ++ rest) = .ok (q, rest) := by
  have htext : f.opcode ≠ .text := by
    intro he
    rw [he] at hc
    cases hc
  have hstart : (p.startedFrame f).startFrame = .ok { p.startedFrame f with
      controlMsg := .new { opcode := f.opcode } (f.key.getD 0)
      currentMsg := .control } := by
    unfold startFrame
    dsimp only
    rw [getOpcode_started, if_pos hc, getMaskingKey_started]
  generalize hq : { p.startedFrame f with
    controlMsg := .new { opcode := f.opcode } (f.key.getD 0), currentMsg := .control } = q at hstart
  obtain ⟨hsound, hs, -⟩ := sound_of_startFrame (length_padded f.length_extension) rfl hstart
  have hcur : q.current = ⟨some { opcode := f.opcode }, prepareMaskingKey (f.key.getD 0), {}⟩ := by
    rw [← hq]
    rfl
  have hh : q.basicHeader = f.basicHeader := by
    rw [← hq]
    rfl
  have hrest (rest : List UInt8) :=
    consume_payload (f := f) hsound hs hh (by rw [← hq]; rfl) hcur rest
  simp only [htext, false_and, if_false, List.nil_append] at hrest
  generalize hkey : (q.unmask f.maskedPayload).2 = key at hrest
  have hend : (q.stored ⟨some { opcode := f.opcode, payload := f.payload }, key, {}⟩
      f.payload.length).endFrame =
      .ok (q.stored ⟨some { opcode := f.opcode, payload := f.payload }, key, {}⟩
        f.payload.length).finished := by
    rw [endFrame_eq (by rw [basicHeader_stored, hh]), if_pos (hok.control hc).1,
      if_neg fun h => htext h.1]
  generalize hr : (q.stored ⟨some { opcode := f.opcode, payload := f.payload }, key, {}⟩
    f.payload.length).finished = r at hend
  have hready : r.state = .ready := by
    rw [← hr]
    rfl
  have htake : r.getMessage = (some { opcode := f.opcode, payload := f.payload },
      r.taken { opcode := f.opcode, payload := f.payload }) := by
    refine getMessage_eq hready ?_
    rw [← hr, ← hq]
    rfl
  refine ⟨r, hready, by rw [htake], ?_, fun rest => ?_⟩
  · have hdata : (r.taken { opcode := f.opcode, payload := f.payload }).dataMsg = p.dataMsg := by
      rw [dataMsg_taken_control (by rw [← hr, ← hq]; rfl) hc, ← hr, ← hq]
      rfl
    rw [htake]
    refine ⟨?_, ?_, rfl, rfl, rfl, ?_, fun m hm => ?_⟩
    · rw [server_taken, ← hr, ← hq]
      exact h.server_eq
    · rw [maxMessageSize_taken, ← hr, ← hq]
      exact h.maxSize_eq
    · exact (congrArg MsgMetadata.msgPtr hdata).trans h.message
    · rw [hdata]
      exact h.text m hm
  · rw [h.consume_header hok, hstart]
    refine (hrest rest).trans ?_
    rw [hend]
    exact consume_of_ready hready rest

/-- The validator of the data message that the frame belongs to. -/
def Hybi13.dataValidator (p : Hybi13) (o : Option Message) : Validator :=
  if o.isSome then p.dataMsg.validator else {}

/-- The processor before the payload of a data frame. -/
def Hybi13.dataStarted (p : Hybi13) (o : Option Message) (f : Frame) : Hybi13 :=
  { p.startedFrame f with
    dataMsg := ⟨some (o.getD { opcode := f.opcode }), prepareMaskingKey (f.key.getD 0),
      p.dataValidator o⟩
    currentMsg := .data }

theorem Between.startFrame_data (h : Between server maxSize o p) {f : Frame}
    (hc : f.opcode.isControl = false) :
    (p.startedFrame f).startFrame =
      if (f.extended o).payload.length % 2 ^ 64 ≤ maxSize then .ok (p.dataStarted o f)
      else .error .messageTooBig := by
  have hmsg : (p.startedFrame f).dataMsg.msgPtr = o := h.message
  have hmax : maxSize = (p.startedFrame f).maxMessageSize := h.maxSize_eq.symm
  unfold startFrame
  dsimp only
  rw [getOpcode_started, if_neg (by simp [hc]), getMaskingKey_started, hmsg,
    show (p.startedFrame f).bytesNeeded = f.payload.length from rfl]
  cases o with
  | none =>
    have hlen : (f.extended none).payload.length % 2 ^ 64 = f.payload.length :=
      Nat.mod_eq_of_lt f.size_lt
    rw [hlen, hmax]
    dsimp only
    by_cases hle : f.payload.length ≤ (p.startedFrame f).maxMessageSize
    · rw [if_pos hle, if_neg (Nat.not_lt.mpr hle)]
      rfl
    · rw [if_neg hle, if_pos (Nat.lt_of_not_le hle)]
  | some m =>
    have hlen : (f.extended (some m)).payload.length =
      m.payload.length + f.payload.length := List.length_append
    have hdata : (p.startedFrame f).dataMsg =
        ⟨some m, p.dataMsg.preparedKey, p.dataMsg.validator⟩ := by
      rw [← h.message]
      rfl
    rw [hlen, hmax]
    dsimp only
    by_cases hle : (m.payload.length + f.payload.length) % 2 ^ 64 ≤
        (p.startedFrame f).maxMessageSize
    · rw [if_pos hle, if_neg (Nat.not_lt.mpr hle), hdata]
      rfl
    · rw [if_neg hle, if_pos (Nat.lt_of_not_le hle)]

/-- What the payload of a data frame does to the validator. -/
theorem Between.decode (h : Between server maxSize o p) {f : Frame}
    (htext : (f.extended o).opcode = .text) :
    (((p.dataValidator o).decode f.payload).2 = true ↔
        ∃ t, IsText ((f.extended o).payload ++ t)) ∧
      (((p.dataValidator o).decode f.payload).2 = true →
        ((p.dataValidator o).decode f.payload).1.state =
          (f.extended o).payload.foldl advance utf8Accept) := by
  cases o with
  | none =>
    exact Validator.decode_of_state (v := {}) (s := []) rfl (by decide) f.payload
  | some m =>
    obtain ⟨h1, h2⟩ := h.text m rfl htext
    exact Validator.decode_of_state h1 h2 f.payload

theorem extended_eq (o : Option Message) (f : Frame) :
    f.extended o = { o.getD { opcode := f.opcode } with
      payload := (o.getD { opcode := f.opcode }).payload ++ f.payload } := by
  cases o <;> rfl

/-- The processor with the payload of a data frame in the message. -/
def Hybi13.dataStored (p : Hybi13) (o : Option Message) (f : Frame) : Hybi13 :=
  (p.dataStarted o f).stored ⟨some (f.extended o), ((p.dataStarted o f).unmask f.maskedPayload).2,
    if (f.extended o).opcode = .text then ((p.dataValidator o).decode f.payload).1
    else p.dataValidator o⟩ f.payload.length

theorem Between.consume_data (h : Between server maxSize o p) {f : Frame}
    (hok : f.HeaderOk server o) (hc : f.opcode.isControl = false) (rest : List UInt8) :
    p.consume (f.bytes ++ rest) =
      if (f.extended o).payload.length % 2 ^ 64 ≤ maxSize then
        if (f.extended o).opcode = .text ∧ ((p.dataValidator o).decode f.payload).2 = false then
          .error .invalidUtf8
        else (p.dataStored o f).endFrame >>= fun r => r.consume rest
      else .error .messageTooBig := by
  have hstart := h.startFrame_data (f := f) hc
  rw [h.consume_header hok]
  by_cases hsize : (f.extended o).payload.length % 2 ^ 64 ≤ maxSize
  · rw [if_pos hsize] at hstart ⊢
    obtain ⟨hsound, hs, -⟩ := sound_of_startFrame (length_padded f.length_extension) rfl hstart
    have hpayload := consume_payload (f := f) hsound hs rfl rfl rfl rest
    have hopcode : (f.extended o).opcode = (o.getD { opcode := f.opcode }).opcode := by
      rw [extended_eq]
    rw [hstart]
    change (p.dataStarted o f).consume (f.maskedPayload ++ rest) = _
    rw [hpayload, ← extended_eq, hopcode, dataStored, hopcode]
  · rw [if_neg hsize] at hstart ⊢
    rw [hstart]
    rfl

theorem endFrame_dataStored (p : Hybi13) (o : Option Message) (f : Frame) :
    (p.dataStored o f).endFrame =
      if f.fin then
        if f.opcode = .text ∧ (p.dataStored o f).current.validator.complete = false then
          .error .invalidUtf8
        else .ok (p.dataStored o f).finished
      else .ok (p.dataStored o f).resetHeaders := endFrame_eq rfl

/-- The end of a text that is one frame. -/
theorem Between.complete_iff (h : Between server maxSize o p) {f : Frame}
    (hok : f.HeaderOk server o) (htext : f.opcode = .text)
    (hvalid : ((p.dataValidator o).decode f.payload).2 = true) :
    (p.dataStored o f).current.validator.complete = true ↔ IsText f.payload := by
  obtain ⟨rfl, -⟩ := hok.extended_opcode htext
  have hstate := (h.decode (f := f) htext).2 hvalid
  have hv : (p.dataStored none f).current.validator =
      ((p.dataValidator none).decode f.payload).1 := by
    rw [dataStored, current_stored]
    exact if_pos htext
  rw [hv, Validator.complete, decide_eq_true_eq, hstate, foldl_advance_iff]
  rfl

/-- The processor that has taken in a data frame stands between frames again, once the
message is delivered if the frame ends it. -/
theorem Between.between_taken (h : Between server maxSize o p) (f : Frame) :
    Between server maxSize none
      ((p.dataStored o f).finished.taken (f.extended o)) := by
  refine ⟨?_, ?_, rfl, rfl, rfl, ?_, fun m hm => (by cases hm)⟩
  · rw [server_taken]
    exact h.server_eq
  · rw [maxMessageSize_taken]
    exact h.maxSize_eq
  · exact dataMsg_taken_data rfl _

theorem Between.between_reset (h : Between server maxSize o p) {f : Frame}
    (hvalid : (f.extended o).opcode = .text →
      ((p.dataValidator o).decode f.payload).2 = true) :
    Between server maxSize (some (f.extended o)) (p.dataStored o f).resetHeaders := by
  refine ⟨h.server_eq, h.maxSize_eq, rfl, rfl, rfl, rfl, fun m hm htext => ?_⟩
  cases hm
  obtain ⟨h1, h2⟩ := h.decode htext
  have hv : (p.dataStored o f).resetHeaders.dataMsg.validator =
      ((p.dataValidator o).decode f.payload).1 := if_pos htext
  rw [hv, h2 (hvalid htext)]
  exact ⟨rfl, (foldl_advance_ne_reject_iff _).mpr (h1.mp (hvalid htext))⟩

theorem bytes_ne_nil (f : Frame) (rest : List UInt8) : f.bytes ++ rest ≠ [] := by
  simp [Frame.bytes]

theorem receive_of_consume_eq {q : Hybi13} (hp : p.Reading) (hq : q.Reading) {f : Frame}
    {rest : List UInt8} (hc : p.consume (f.bytes ++ rest) = q.consume rest) :
    receive p (f.bytes ++ rest) = receive q rest := by
  by_cases hne : rest = []
  · rw [hne] at hc ⊢
    rw [hq.consume_nil] at hc
    exact receive_of_reading (bytes_ne_nil f []) hc hq
  · exact receive_congr hp hq (bytes_ne_nil f rest) hne hc

/-- An admissible frame is taken in, and its message delivered. -/
theorem Between.receive_admissible (h : Between server maxSize o p) {f : Frame}
    (ha : f.Admissible server maxSize o) :
    ∃ q, Between server maxSize (f.next o) q ∧ ∀ rest,
      receive p (f.bytes ++ rest) = (receive q rest).after (f.message o).toList := by
  unfold Frame.next Frame.message
  cases hc : f.opcode.isControl with
  | true =>
    obtain ⟨q, hready, hget, hbetween, hconsume⟩ := h.consume_control ha.header hc
    refine ⟨q.getMessage.2, hbetween, fun rest => ?_⟩
    rw [receive_of_ready h.reading (bytes_ne_nil f rest) (hconsume rest) hready, hget]
    rfl
  | false =>
    have hvalid (htext : (f.extended o).opcode = .text) :
        ((p.dataValidator o).decode f.payload).2 = true :=
      (h.decode htext).1.mpr (ha.text hc htext)
    have hconsume (rest : List UInt8) := h.consume_data ha.header hc rest
    simp only [if_pos (ha.size hc), endFrame_dataStored] at hconsume
    have hbad : ¬ ((f.extended o).opcode = .text ∧
        ((p.dataValidator o).decode f.payload).2 = false) := by
      rintro ⟨htext, hfalse⟩
      rw [hvalid htext] at hfalse
      cases hfalse
    simp only [if_neg hbad] at hconsume
    cases hfin : f.fin with
    | true =>
      have hcomplete : ¬ (f.opcode = .text ∧
          (p.dataStored o f).current.validator.complete = false) := by
        rintro ⟨htext, hfalse⟩
        have hopcode : (f.extended o).opcode = .text := (ha.header.extended_opcode htext).2
        rw [(h.complete_iff ha.header htext (hvalid hopcode)).mpr (ha.complete htext hfin)]
          at hfalse
        cases hfalse
      refine ⟨_, h.between_taken f, fun rest => ?_⟩
      have hend := hconsume rest
      rw [hfin, if_pos rfl, if_neg hcomplete] at hend
      have hready : (p.dataStored o f).finished.state = .ready := rfl
      have hmsg : (p.dataStored o f).finished.current.msgPtr = some (f.extended o) := rfl
      replace hend : p.consume (f.bytes ++ rest) = .ok ((p.dataStored o f).finished, rest) :=
        hend.trans (consume_of_ready hready rest)
      rw [receive_of_ready h.reading (bytes_ne_nil f rest) hend hready, getMessage_eq hready hmsg]
      rfl
    | false =>
      refine ⟨(p.dataStored o f).resetHeaders, h.between_reset hvalid, fun rest => ?_⟩
      refine receive_of_consume_eq h.reading (h.between_reset hvalid).reading ?_
      rw [hconsume, hfin]
      rfl

/-- The frame that is not admissible ends the stream, at the latest with its last byte. -/
theorem Between.receive_inadmissible (h : Between server maxSize o p) {f : Frame}
    (ha : ¬ f.Admissible server maxSize o) (rest : List UInt8) :
    ∃ ec, receive p (f.bytes ++ rest) = { result := .error ec } := by
  suffices hc : ∃ ec, p.consume (f.bytes ++ rest) = .error ec by
    obtain ⟨ec, hc⟩ := hc
    exact ⟨ec, receive_of_error (bytes_ne_nil f rest) hc⟩
  by_cases hok : f.HeaderOk server o
  · cases hc : f.opcode.isControl with
    | true =>
      refine absurd ⟨hok, fun h => ?_, fun h => ?_, fun htext _ => ?_⟩ ha
      · cases hc.symm.trans h
      · cases hc.symm.trans h
      · rw [htext] at hc
        cases hc
    | false =>
      rw [h.consume_data hok hc, endFrame_dataStored]
      by_cases hsize : (f.extended o).payload.length % 2 ^ 64 ≤ maxSize
      · rw [if_pos hsize]
        by_cases hbad : (f.extended o).opcode = .text ∧
            ((p.dataValidator o).decode f.payload).2 = false
        · rw [if_pos hbad]
          exact ⟨_, rfl⟩
        · rw [if_neg hbad]
          have hvalid (htext : (f.extended o).opcode = .text) :
              ((p.dataValidator o).decode f.payload).2 = true := by
            rw [← Bool.not_eq_false]
            exact fun hfalse => hbad ⟨htext, hfalse⟩
          by_cases hend : f.opcode = .text ∧ f.fin ∧ ¬ IsText f.payload
          · obtain ⟨htext, hfin, hpart⟩ := hend
            rw [← h.complete_iff hok htext (hvalid (hok.extended_opcode htext).2),
              Bool.not_eq_true] at hpart
            rw [hfin, if_pos rfl, if_pos ⟨htext, hpart⟩]
            exact ⟨_, rfl⟩
          · refine absurd ⟨hok, fun _ => hsize, fun _ htext => ?_, fun htext hfin => ?_⟩ ha
            · exact (h.decode htext).1.mp (hvalid htext)
            · by_contra hpart
              exact hend ⟨htext, hfin, hpart⟩
      · rw [if_neg hsize]
        exact ⟨_, rfl⟩
  · have hv : validateIncomingBasicHeader f.basicHeader server o.isNone ≠ none :=
      fun hnone => hok ((f.validateIncomingBasicHeader_eq_none server o).mp hnone)
    obtain ⟨ec, hec⟩ := Option.ne_none_iff_exists'.mp hv
    refine ⟨ec, ?_⟩
    rw [← h.server_eq, ← h.message] at hec
    rw [Frame.bytes, List.append_assoc, h.consume_basic]
    unfold endBasicHeader
    rw [show validateIncomingBasicHeader (p.begun f.basicHeader).basicHeader
      (p.begun f.basicHeader).server (p.begun f.basicHeader).dataMsg.msgPtr.isNone = some ec
      from hec]
    rfl

/-- A message that is ready ends a frame. -/
theorem Between.exists_frame_of_ready (h : Between server maxSize o p) {s rest : List UInt8}
    {q : Hybi13} (hr : p.consume s = .ok (q, rest)) (hready : q.state = .ready) :
    ∃ f : Frame, f.bytes <+: s := by
  have hsound := h.reading.sound
  rcases s with _ | ⟨b0, _ | ⟨b1, s⟩⟩
  · have hlt : ([] : List UInt8).length < p.bytesNeeded := h.reading.needed
    exact absurd hready (consume_short hsound h.reading.notReady hlt hr)
  · have hlt : [b0].length < p.bytesNeeded := by
      rw [h.needed]
      exact Nat.one_lt_two
    exact absurd hready (consume_short hsound h.reading.notReady hlt hr)
  replace hr : p.consume ([(BasicHeader.mk b0 b1).b0, (BasicHeader.mk b0 b1).b1] ++ s) =
    .ok (q, rest) := hr
  generalize hhd : BasicHeader.mk b0 b1 = hd at hr
  have hbytes : [hd.b0, hd.b1] = [b0, b1] := by rw [← hhd]
  rw [h.consume_basic] at hr
  cases hv : validateIncomingBasicHeader hd p.server p.dataMsg.msgPtr.isNone with
  | some ec =>
    unfold endBasicHeader at hr
    rw [show validateIncomingBasicHeader (p.begun hd).basicHeader (p.begun hd).server
      (p.begun hd).dataMsg.msgPtr.isNone = some ec from hv] at hr
    cases hr
  | none =>
    rw [endBasicHeader_begun hv] at hr
    replace hr : (p.extending hd).consume s = .ok (q, rest) := hr
    rcases Nat.lt_or_ge s.length (getHeaderLen hd - basicHeaderLength) with hlt | hle
    · exact absurd hready (consume_short (h.sound_extending hd) (fun h => (by cases h)) hlt hr)
    · obtain ⟨ext, s, rfl, hext⟩ : ∃ ext t, s = ext ++ t ∧
          ext.length = getHeaderLen hd - basicHeaderLength :=
        ⟨_, _, (List.take_append_drop _ s).symm, List.length_take_of_le hle⟩
      rw [h.consume_extended hext] at hr
      cases hv' : validateIncomingExtendedHeader hd (padded ext) with
      | some ec =>
        rw [hv'] at hr
        cases hr
      | none =>
        rw [hv'] at hr
        cases hstart : (p.started hd ext (getPayloadSize hd (padded ext))).startFrame with
        | error ec =>
          rw [hstart] at hr
          cases hr
        | ok r =>
          rw [hstart] at hr
          replace hr : r.consume s = .ok (q, rest) := hr
          obtain ⟨hrs, hra, hrn⟩ := sound_of_startFrame (length_padded hext) rfl hstart
          rcases Nat.lt_or_ge s.length (getPayloadSize hd (padded ext)) with hlt | hle
          · have hnot : r.state ≠ .ready := by
              rw [hra]
              exact fun h => (by cases h)
            exact absurd hready (consume_short hrs hnot (hrn ▸ hlt) hr)
          · obtain ⟨pay, s, rfl, hpay⟩ : ∃ pay t, s = pay ++ t ∧
                pay.length = getPayloadSize hd (padded ext) :=
              ⟨_, _, (List.take_append_drop _ s).symm, List.length_take_of_le hle⟩
            obtain ⟨f, hf⟩ := exists_frame hd hext hv' hpay
            refine ⟨f, s, ?_⟩
            rw [hf, hbytes]
            simp

/-- What does not begin with a whole frame gives no message. -/
theorem Between.receive_rest (h : Between server maxSize o p) {s : List UInt8}
    (hs : ∀ f : Frame, ¬ f.bytes <+: s) : (receive p s).messages = [] := by
  by_cases hne : s = []
  · rw [hne, receive_nil]
  · cases hr : p.consume s with
    | error ec => rw [receive_of_error hne hr]
    | ok q =>
      obtain ⟨q, rest⟩ := q
      obtain ⟨-, -, hready | ⟨hread, hrest⟩⟩ := h.reading.sound.consume hr
      · obtain ⟨f, hf⟩ := h.exists_frame_of_ready hr hready
        exact absurd hf (hs f)
      · rw [receive_of_reading hne (hrest ▸ hr) hread]

end frame

/-! ### The stream -/

/-- A processor that has read nothing. -/
def Hybi13.new (server : Bool) (maxMessageSize : ℕ := 32000000) : Hybi13 :=
  { server, maxMessageSize }

theorem between_new (server : Bool) (maxSize : ℕ) :
    Between server maxSize none (.new server maxSize) :=
  ⟨rfl, rfl, rfl, rfl, rfl, rfl, fun _ h => (by cases h)⟩

section stream

open Hybi13

variable {server : Bool} {maxSize : ℕ} {o o' : Option Message} {p : Hybi13} {fs : List Frame}
  {ms : List Message}

/-- Admissible frames are taken in, one after the other. -/
theorem Between.receive_delivers (h : Between server maxSize o p)
    (hd : Delivers server maxSize o fs ms o') :
    ∃ q, Between server maxSize o' q ∧ ∀ rest,
      receive p (fs.flatMap Frame.bytes ++ rest) = (receive q rest).after ms := by
  induction hd generalizing p with
  | nil o => exact ⟨p, h, fun rest => rfl⟩
  | @cons o o' f fs ms ha _ ih =>
    obtain ⟨q, hq, hrest⟩ := h.receive_admissible ha
    obtain ⟨r, hr, hrest'⟩ := ih hq
    refine ⟨r, hr, fun rest => ?_⟩
    rw [List.flatMap_cons, List.append_assoc, hrest, hrest', Received.after_after]

/-- The longest sequence of admissible frames at the beginning of a stream. -/
theorem exists_delivers (server : Bool) (maxSize : ℕ) (o : Option Message) (s : List UInt8) :
    ∃ fs ms o' rest, s = fs.flatMap Frame.bytes ++ rest ∧ Delivers server maxSize o fs ms o' ∧
      ∀ f : Frame, f.bytes <+: rest → ¬ f.Admissible server maxSize o' := by
  induction hn : s.length using Nat.strong_induction_on generalizing s o with
  | _ n ih =>
    by_cases hf : ∃ f : Frame, f.bytes <+: s ∧ f.Admissible server maxSize o
    · obtain ⟨f, ⟨t, rfl⟩, ha⟩ := hf
      have hlt : t.length < n := by
        have hpos : 0 < f.bytes.length := Nat.succ_pos _
        rw [List.length_append] at hn
        omega
      obtain ⟨fs, ms, o', rest, rfl, hd, hrest⟩ := ih _ hlt (f.next o) t rfl
      exact ⟨f :: fs, _, o', rest, by rw [List.flatMap_cons, List.append_assoc], .cons ha hd, hrest⟩
    · exact ⟨[], [], o, s, rfl, .nil o, fun f hs ha => hf ⟨f, hs, ha⟩⟩

/-- What the processor makes of the longest sequence of admissible frames, whatever comes
after them. -/
theorem receiveAll_messages (server : Bool) (maxSize : ℕ) (bufs : List (List UInt8)) :
    ∃ fs ms o rest, bufs.flatten = fs.flatMap Frame.bytes ++ rest ∧
      Delivers server maxSize none fs ms o ∧
      (receiveAll (.new server maxSize) bufs).messages = ms ∧
      ∀ f : Frame, f.bytes <+: rest → ¬ f.Admissible server maxSize o ∧
        ∃ ec, (receiveAll (.new server maxSize) bufs).result = .error ec := by
  have hnew := between_new server maxSize
  obtain ⟨fs, ms, o, rest, hs, hd, hrest⟩ := exists_delivers server maxSize none bufs.flatten
  obtain ⟨q, hq, hreceive⟩ := hnew.receive_delivers hd
  refine ⟨fs, ms, o, rest, hs, hd, ?_, fun f hf => ⟨hrest f hf, ?_⟩⟩
  · rw [receiveAll_eq hnew.reading, hs, hreceive]
    by_cases hf : ∃ f : Frame, f.bytes <+: rest
    · obtain ⟨f, t, rfl⟩ := hf
      obtain ⟨ec, hec⟩ := hq.receive_inadmissible (hrest f (List.prefix_append ..)) t
      rw [hec]
      exact List.append_nil ms
    · push Not at hf
      change ms ++ (receive q rest).messages = ms
      rw [hq.receive_rest hf, List.append_nil]
  · obtain ⟨t, rfl⟩ := hf
    obtain ⟨ec, hec⟩ := hq.receive_inadmissible (hrest f (List.prefix_append ..)) t
    refine ⟨ec, ?_⟩
    rw [receiveAll_eq hnew.reading, hs, hreceive, hec]
    rfl

/-- However a stream is cut into buffers, the messages delivered are those of the
admissible frames at its beginning. What follows them is no whole frame, unless the stream
was given up there. -/
theorem receiveAll_delivers (server : Bool) (maxSize : ℕ) (bufs : List (List UInt8)) :
    ∃ fs o rest, bufs.flatten = fs.flatMap Frame.bytes ++ rest ∧
      Delivers server maxSize none fs (receiveAll (.new server maxSize) bufs).messages o ∧
      ∀ f : Frame, f.bytes <+: rest → ¬ f.Admissible server maxSize o ∧
        ∃ ec, (receiveAll (.new server maxSize) bufs).result = .error ec := by
  obtain ⟨fs, ms, o, rest, hs, hd, rfl, hrest⟩ := receiveAll_messages server maxSize bufs
  exact ⟨fs, o, rest, hs, hd, hrest⟩

/-- The buffers in which a stream arrives make no difference at all. -/
theorem receiveAll_new (server : Bool) (maxSize : ℕ) (bufs : List (List UInt8)) :
    receiveAll (.new server maxSize) bufs = receive (.new server maxSize) bufs.flatten :=
  receiveAll_eq (between_new server maxSize).reading bufs

end stream

end PeerApi.Websocket
