import PeerApi.Websocket.Hybi13

/-! The stream does not depend on the buffers. However the bytes of a stream are cut into
buffers, the processor makes the same messages of them, stops at the same error, and else
is in the same state at the end. A round of the loop that runs out of bytes in the middle
of a field leaves a processor that goes on with the field. -/

namespace PeerApi.Websocket.Hybi13

open Base

variable {p p' : Hybi13} {buf rest : List UInt8}

/-- What holds of a processor inside its loop. -/
structure Sound (p : Hybi13) : Prop where
  basic : p.state = .headerBasic → p.bytesNeeded ≤ basicHeaderLength
  array : p.extendedHeader.bytes.length = maxExtendedHeaderLength
  extended : p.state = .headerExtended → p.cursor + p.bytesNeeded ≤ maxExtendedHeaderLength
  message : p.state = .application ∨ p.state = .ready → p.current.msgPtr.isSome
  masked : p.state = .application → ∃ key n, Turned key n p.current.preparedKey
  inside : p.state ≠ .extension ∧ p.state ≠ .fatalError

theorem sound_resetHeaders (p : Hybi13) : p.resetHeaders.Sound where
  basic _ := le_rfl
  array := rfl
  extended h := by cases h
  message h := by rcases h with h | h <;> cases h
  masked h := by cases h
  inside := ⟨fun h => (by cases h), fun h => (by cases h)⟩

/-! ### The extended header -/

theorem getHeaderLen_le (h : BasicHeader) :
    getHeaderLen h - basicHeaderLength ≤ maxExtendedHeaderLength := by
  unfold getHeaderLen getMaskingKeyOffset basicHeaderLength maxExtendedHeaderLength
  split_ifs <;> decide

theorem copyTo_copyTo {bytes as bs : List UInt8} {n : ℕ} (h : n + as.length ≤ bytes.length) :
    copyTo (copyTo bytes n as) (n + as.length) bs = copyTo bytes n (as ++ bs) := by
  have hlen : (bytes.take n ++ as).length = n + as.length := by
    rw [List.length_append, List.length_take]
    omega
  unfold copyTo
  rw [List.take_left' hlen, List.drop_append, List.drop_of_length_le (by omega), hlen,
    List.drop_drop, List.length_append, List.nil_append, ← List.append_assoc,
    Nat.add_sub_cancel_left, Nat.add_assoc]

theorem length_copyTo {bytes as : List UInt8} {n : ℕ} (h : n + as.length ≤ bytes.length) :
    (copyTo bytes n as).length = bytes.length := by
  unfold copyTo
  rw [List.length_append, List.length_append, List.length_take, List.length_drop]
  omega

/-- A part of the extended header. -/
def extend (p : Hybi13) (bytes : List UInt8) : Hybi13 :=
  { p with
    extendedHeader := ⟨copyTo p.extendedHeader.bytes p.cursor bytes⟩
    cursor := p.cursor + bytes.length
    bytesNeeded := p.bytesNeeded - bytes.length }

theorem extend_extend {as bs : List UInt8}
    (h : p.cursor + as.length ≤ p.extendedHeader.bytes.length) :
    (p.extend as).extend bs = p.extend (as ++ bs) := by
  unfold extend
  dsimp only
  rw [copyTo_copyTo h, List.length_append, Nat.add_assoc, Nat.sub_add_eq]

theorem copyExtendedHeaderBytes_eq (p : Hybi13) (buf : List UInt8) :
    p.copyExtendedHeaderBytes buf =
      (p.extend (buf.take p.bytesNeeded), buf.drop p.bytesNeeded) := by
  unfold copyExtendedHeaderBytes extend
  dsimp only
  rw [List.length_take, ← List.take_eq_take_min, ← List.drop_eq_drop_min]

/-! ### The payload -/

/-- The bytes of the payload and the key for those to come. -/
def unmask (p : Hybi13) (buf : List UInt8) : List UInt8 × UInt64 :=
  if getMasked p.basicHeader then byteMaskCirc buf p.current.preparedKey
  else (buf, p.current.preparedKey)

/-- The processor once a part of the payload is in its message. -/
def stored (p : Hybi13) (m : MsgMetadata) (n : ℕ) : Hybi13 :=
  { p.setCurrent m with bytesNeeded := p.bytesNeeded - n }

@[simp] theorem current_stored (p : Hybi13) (m : MsgMetadata) (n : ℕ) :
    (p.stored m n).current = m := by
  unfold stored setCurrent current
  cases p.currentMsg <;> rfl

@[simp] theorem basicHeader_stored (p : Hybi13) (m : MsgMetadata) (n : ℕ) :
    (p.stored m n).basicHeader = p.basicHeader := by
  unfold stored setCurrent
  cases p.currentMsg <;> rfl

@[simp] theorem bytesNeeded_stored (p : Hybi13) (m : MsgMetadata) (n : ℕ) :
    (p.stored m n).bytesNeeded = p.bytesNeeded - n := rfl

theorem stored_stored (p : Hybi13) (m m' : MsgMetadata) (n n' : ℕ) :
    (p.stored m n).stored m' n' = p.stored m' (n + n') := by
  unfold stored setCurrent
  rw [Nat.sub_add_eq]
  cases p.currentMsg <;> rfl

theorem stored_current (p : Hybi13) : p.stored p.current 0 = p := by
  obtain ⟨_, _, _, _, _, _, _, _, _, slot⟩ := p
  cases slot <;> rfl

theorem processPayloadBytes_eq {m : Message} {key : UInt64} {v : Validator}
    (h : p.current = ⟨some m, key, v⟩) (buf : List UInt8) :
    p.processPayloadBytes buf =
      if m.opcode = .text ∧ (v.decode (p.unmask buf).1).2 = false then .error .invalidUtf8
      else .ok (p.stored ⟨some { m with payload := m.payload ++ (p.unmask buf).1 },
        (p.unmask buf).2, if m.opcode = .text then (v.decode (p.unmask buf).1).1 else v⟩
        buf.length) := by
  have hunmask : (if getMasked p.basicHeader then byteMaskCirc buf p.current.preparedKey
      else (buf, p.current.preparedKey)) = p.unmask buf := rfl
  unfold processPayloadBytes
  rw [hunmask]
  simp only [h, Option.map_some, Option.any_some, decide_eq_true_eq]
  by_cases htext : m.opcode = .text
  · simp only [htext, if_true, true_and]
    cases (v.decode (p.unmask buf).1).2 <;> rfl
  · simp only [htext, if_false, false_and, if_true]
    rfl

theorem unmask_append (hkey : ∃ key n, Turned key n p.current.preparedKey) {q : Hybi13}
    (a b : List UInt8) (hheader : q.basicHeader = p.basicHeader)
    (hq : q.current.preparedKey = (p.unmask a).2) :
    p.unmask (a ++ b) = ((p.unmask a).1 ++ (q.unmask b).1, (q.unmask b).2) := by
  obtain ⟨key, n, hkey⟩ := hkey
  unfold unmask at hq ⊢
  rw [hheader, hq]
  split_ifs
  · exact hkey.byteMaskCirc_append a b
  · rfl

theorem processPayloadBytes_append (hkey : ∃ key n, Turned key n p.current.preparedKey)
    (hmsg : p.current.msgPtr.isSome) (a b : List UInt8) :
    p.processPayloadBytes (a ++ b) =
      p.processPayloadBytes a >>= fun p' => p'.processPayloadBytes b := by
  obtain ⟨m, hm⟩ := Option.isSome_iff_exists.mp hmsg
  have hcur : p.current = ⟨some m, p.current.preparedKey, p.current.validator⟩ := by rw [← hm]
  rw [processPayloadBytes_eq hcur, processPayloadBytes_eq hcur]
  generalize p.current.validator = v at hcur
  generalize hq : p.stored ⟨some { m with payload := m.payload ++ (p.unmask a).1 },
    (p.unmask a).2, if m.opcode = .text then (v.decode (p.unmask a).1).1 else v⟩ a.length = q
  have hqcur := congrArg current hq
  rw [current_stored] at hqcur
  have hu := unmask_append hkey a b (q := q) (by rw [← hq, basicHeader_stored]) (by rw [← hqcur])
  rw [hu]
  by_cases htext : m.opcode = .text
  · simp only [htext, true_and, if_true] at hq hqcur ⊢
    rw [Validator.decode_append]
    cases hvalid : (v.decode (p.unmask a).1).2 with
    | false =>
      simp only [Bool.false_eq_true, if_false, hvalid, if_true]
      rfl
    | true =>
      change _ = q.processPayloadBytes b
      rw [processPayloadBytes_eq hqcur.symm, ← hq, stored_stored, List.length_append]
      simp
  · simp only [htext, false_and, if_false] at hq hqcur ⊢
    change _ = q.processPayloadBytes b
    rw [processPayloadBytes_eq hqcur.symm, ← hq, stored_stored, List.length_append]
    simp [htext]

theorem state_stored (p : Hybi13) (m : MsgMetadata) (n : ℕ) : (p.stored m n).state = p.state := by
  unfold stored setCurrent
  cases p.currentMsg <;> rfl

theorem extendedHeader_stored (p : Hybi13) (m : MsgMetadata) (n : ℕ) :
    (p.stored m n).extendedHeader = p.extendedHeader := by
  unfold stored setCurrent
  cases p.currentMsg <;> rfl

theorem Sound.processPayloadBytes (h : p.Sound) (hstate : p.state = .application)
    (hp : p.processPayloadBytes buf = .ok p') :
    p'.Sound ∧ p'.state = .application ∧ p'.bytesNeeded = p.bytesNeeded - buf.length := by
  obtain ⟨m, hm⟩ := Option.isSome_iff_exists.mp (h.message (Or.inl hstate))
  have hcur : p.current = ⟨some m, p.current.preparedKey, p.current.validator⟩ := by rw [← hm]
  rw [processPayloadBytes_eq hcur] at hp
  by_cases hbad : m.opcode = .text ∧ (p.current.validator.decode (p.unmask buf).1).2 = false
  · rw [if_pos hbad] at hp
    cases hp
  rw [if_neg hbad] at hp
  generalize hstored : p.stored _ buf.length = q at hp
  cases hp
  obtain ⟨key, n, hkey⟩ := h.masked hstate
  have hnext : ∃ key n, Turned key n (p.unmask buf).2 := by
    unfold unmask
    split_ifs
    · exact ⟨key, _, (hkey.byteMaskCirc buf).2⟩
    · exact ⟨key, n, hkey⟩
  have hs : p'.state = .application := by rw [← hstored, state_stored, hstate]
  refine ⟨⟨fun hb => ?_, ?_, fun he => ?_, fun _ => ?_, fun _ => ?_, ?_⟩, hs, ?_⟩
  · cases hs.symm.trans hb
  · rw [← hstored, extendedHeader_stored, h.array]
  · cases hs.symm.trans he
  · rw [← hstored, current_stored]
    rfl
  · rwa [← hstored, current_stored]
  · rw [hs]
    exact ⟨fun h => (by cases h), fun h => (by cases h)⟩
  · rw [← hstored, bytesNeeded_stored]

theorem Sound.processPayloadBytes_nil (h : p.Sound) (hstate : p.state = .application) :
    p.processPayloadBytes [] = .ok p := by
  obtain ⟨m, hm⟩ := Option.isSome_iff_exists.mp (h.message (Or.inl hstate))
  have hcur : p.current = ⟨some m, p.current.preparedKey, p.current.validator⟩ := by rw [← hm]
  have hnone : p.unmask [] = ([], p.current.preparedKey) := by
    obtain ⟨key, n, hkey⟩ := h.masked hstate
    unfold unmask
    split_ifs
    · exact Prod.ext rfl ((hkey.byteMaskCirc []).2.unique hkey)
    · rfl
  rw [processPayloadBytes_eq hcur, hnone, if_neg (by simp [Validator.decode]), List.append_nil]
  dsimp only [Validator.decode]
  rw [ite_self, ← hcur, List.length_nil, stored_current]

/-! ### One round

In each of its states the processor reads what the buffer has of the field, and ends the
field when nothing of it is missing. -/

def putBasic (p : Hybi13) (b : UInt8) : Hybi13 :=
  if p.bytesNeeded = 2 then
    { p with basicHeader := { p.basicHeader with b0 := b }, bytesNeeded := 1 }
  else
    { p with basicHeader := { p.basicHeader with b1 := b }, bytesNeeded := p.bytesNeeded - 1 }

def readField (p : Hybi13) (bytes : List UInt8) : Except ProcessorError Hybi13 :=
  match p.state with
  | .headerBasic => .ok (bytes.foldl putBasic p)
  | .headerExtended => .ok (p.extend bytes)
  | _ => p.processPayloadBytes bytes

def endField (p : Hybi13) : Except ProcessorError Hybi13 :=
  match p.state with
  | .headerBasic => p.endBasicHeader
  | .headerExtended => p.endExtendedHeader
  | _ => p.endFrame

theorem copyBasicHeaderBytes_eq (h : p.bytesNeeded ≤ basicHeaderLength) (buf : List UInt8) :
    p.copyBasicHeaderBytes buf =
      ((buf.take p.bytesNeeded).foldl putBasic p, buf.drop p.bytesNeeded) := by
  unfold copyBasicHeaderBytes
  rcases (by unfold basicHeaderLength at h; omega :
    p.bytesNeeded = 0 ∨ p.bytesNeeded = 1 ∨ p.bytesNeeded = 2) with h0 | h1 | h2
  · rw [if_pos h0, h0]
    rfl
  · rw [if_neg (by omega)]
    rcases buf with _ | ⟨b, _ | ⟨c, buf⟩⟩ <;> simp [h1, putBasic]
  · rw [if_neg (by omega)]
    rcases buf with _ | ⟨b, _ | ⟨c, buf⟩⟩ <;> simp [h2, putBasic]

@[simp] theorem state_putBasic (p : Hybi13) (b : UInt8) : (p.putBasic b).state = p.state := by
  unfold putBasic
  split_ifs <;> rfl

theorem bytesNeeded_putBasic (p : Hybi13) (b : UInt8) :
    (p.putBasic b).bytesNeeded = p.bytesNeeded - 1 := by
  unfold putBasic
  split_ifs with h
  · exact (congrArg (· - 1) h).symm
  · rfl

theorem Sound.putBasic (h : p.Sound) (hstate : p.state = .headerBasic) (b : UInt8) :
    (p.putBasic b).Sound := by
  have hs : (p.putBasic b).state = .headerBasic := by rw [state_putBasic, hstate]
  have harray : (p.putBasic b).extendedHeader = p.extendedHeader := by
    unfold Hybi13.putBasic
    split_ifs <;> rfl
  refine ⟨fun _ => ?_, harray ▸ h.array, fun he => ?_, fun hm => ?_, fun hm => ?_, ?_⟩
  · rw [bytesNeeded_putBasic]
    exact (Nat.sub_le _ _).trans (h.basic hstate)
  · cases hs.symm.trans he
  · rcases hm with hm | hm <;> cases hs.symm.trans hm
  · cases hs.symm.trans hm
  · rw [state_putBasic]
    exact h.inside

theorem Sound.foldl_putBasic (h : p.Sound) (hstate : p.state = .headerBasic)
    (bytes : List UInt8) :
    (bytes.foldl Hybi13.putBasic p).Sound ∧
      (bytes.foldl Hybi13.putBasic p).state = .headerBasic ∧
      (bytes.foldl Hybi13.putBasic p).bytesNeeded = p.bytesNeeded - bytes.length := by
  induction bytes generalizing p with
  | nil => exact ⟨h, hstate, rfl⟩
  | cons b bytes ih =>
    obtain ⟨h1, h2, h3⟩ := ih (h.putBasic hstate b) (by rw [state_putBasic, hstate])
    refine ⟨h1, h2, ?_⟩
    rw [List.foldl_cons, h3, bytesNeeded_putBasic, List.length_cons]
    omega

theorem Sound.extend (h : p.Sound) (hstate : p.state = .headerExtended) {bytes : List UInt8}
    (hle : bytes.length ≤ p.bytesNeeded) : (p.extend bytes).Sound := by
  have hroom := h.extended hstate
  have harray := h.array
  refine ⟨fun hb => ?_, ?_, fun _ => ?_, fun hm => ?_, fun hm => ?_, h.inside⟩
  · cases hstate.symm.trans hb
  · exact (length_copyTo (by omega)).trans harray
  · change p.cursor + bytes.length + (p.bytesNeeded - bytes.length) ≤ maxExtendedHeaderLength
    omega
  · rcases hm with hm | hm <;> cases hstate.symm.trans hm
  · cases hstate.symm.trans hm

theorem Sound.readField (h : p.Sound) (hready : p.state ≠ .ready) {bytes : List UInt8}
    (hle : bytes.length ≤ p.bytesNeeded) (hq : p.readField bytes = .ok p') :
    p'.Sound ∧ p'.state = p.state ∧ p'.bytesNeeded = p.bytesNeeded - bytes.length := by
  unfold Hybi13.readField at hq
  cases hstate : p.state with
  | headerBasic =>
    rw [hstate] at hq
    cases hq
    exact h.foldl_putBasic hstate bytes
  | headerExtended =>
    rw [hstate] at hq
    cases hq
    exact ⟨h.extend hstate hle, hstate, rfl⟩
  | application =>
    rw [hstate] at hq
    exact h.processPayloadBytes hstate hq
  | extension => exact absurd hstate h.inside.1
  | fatalError => exact absurd hstate h.inside.2
  | ready => exact absurd hstate hready

theorem readField_append (h : p.Sound) (hready : p.state ≠ .ready) {a b : List UInt8}
    (hle : (a ++ b).length ≤ p.bytesNeeded) :
    p.readField (a ++ b) = p.readField a >>= fun q => q.readField b := by
  rw [List.length_append] at hle
  unfold readField
  cases hstate : p.state with
  | headerBasic =>
    change _ = readField _ _
    unfold readField
    rw [(h.foldl_putBasic hstate a).2.1, List.foldl_append]
  | headerExtended =>
    have hroom := h.extended hstate
    have harray := h.array
    change _ = readField _ _
    unfold readField
    rw [show (p.extend a).state = .headerExtended from hstate]
    exact congrArg _ (extend_extend (by omega)).symm
  | application =>
    dsimp only
    rw [processPayloadBytes_append (h.masked hstate) (h.message (Or.inl hstate))]
    cases hq : p.processPayloadBytes a with
    | error ec => rfl
    | ok q =>
      have hs := (h.processPayloadBytes hstate hq).2.1
      change _ = readField q b
      unfold readField
      rw [hs]
      rfl
  | extension => exact absurd hstate h.inside.1
  | fatalError => exact absurd hstate h.inside.2
  | ready => exact absurd hstate hready

theorem consumeRound_eq (h : p.Sound) (hready : p.state ≠ .ready) (buf : List UInt8) :
    p.consumeRound buf = (do
      let q ← p.readField (buf.take p.bytesNeeded)
      let q ← (if q.bytesNeeded > 0 then .ok q else q.endField)
      return (q, buf.drop p.bytesNeeded)) := by
  unfold consumeRound
  have hfield (q : Hybi13) (hq : p.readField (buf.take p.bytesNeeded) = .ok q) :
      q.state = p.state :=
    (h.readField hready (List.length_take_le _ _) hq).2.1
  cases hstate : p.state with
  | headerBasic =>
    have hread : p.readField (buf.take p.bytesNeeded) =
        .ok ((buf.take p.bytesNeeded).foldl putBasic p) := by
      unfold readField
      rw [hstate]
    have hend : ((buf.take p.bytesNeeded).foldl putBasic p).endField =
        ((buf.take p.bytesNeeded).foldl putBasic p).endBasicHeader := by
      unfold endField
      rw [hfield _ hread, hstate]
    dsimp only
    rw [consumeBasic, copyBasicHeaderBytes_eq (h.basic hstate), hread]
    dsimp only
    rw [← hend]
    rfl
  | headerExtended =>
    have hread : p.readField (buf.take p.bytesNeeded) =
      .ok (p.extend (buf.take p.bytesNeeded)) := by
      unfold readField
      rw [hstate]
    have hend : (p.extend (buf.take p.bytesNeeded)).endField =
        (p.extend (buf.take p.bytesNeeded)).endExtendedHeader := by
      unfold endField
      rw [hfield _ hread, hstate]
    dsimp only
    rw [consumeExtended, copyExtendedHeaderBytes_eq, hread]
    dsimp only
    rw [← hend]
    rfl
  | application =>
    have hread : (if min p.bytesNeeded buf.length > 0 then
        p.processPayloadBytes (buf.take (min p.bytesNeeded buf.length)) else .ok p) =
        p.readField (buf.take p.bytesNeeded) := by
      unfold readField
      rw [hstate, ← List.take_eq_take_min]
      dsimp only
      by_cases hnil : buf.take p.bytesNeeded = []
      · have hlen := congrArg List.length hnil
        rw [List.length_take, List.length_nil] at hlen
        rw [hnil, hlen, if_neg (by decide), h.processPayloadBytes_nil hstate]
      · have hlen := List.length_pos_of_ne_nil hnil
        rw [List.length_take] at hlen
        rw [if_pos hlen]
    dsimp only
    unfold consumeApplication
    dsimp only
    rw [hread, ← List.drop_eq_drop_min]
    cases hq : p.readField (buf.take p.bytesNeeded) with
    | error ec => rfl
    | ok q =>
      have hend : q.endField = q.endFrame := by
        unfold endField
        rw [hfield q hq, hstate]
      change (do
        let q ← (if q.bytesNeeded > 0 then Except.ok q else q.endFrame)
        return (q, buf.drop p.bytesNeeded)) = _
      rw [← hend]
      rfl
  | extension => exact absurd hstate h.inside.1
  | fatalError => exact absurd hstate h.inside.2
  | ready => exact absurd hstate hready

/-- Fields that end without a byte end one after the other, and then one is needed. -/
def rank (p : Hybi13) : ℕ :=
  match p.state with
  | .headerBasic => if p.bytesNeeded = 0 then 3 else 0
  | .headerExtended => 2
  | .application => 1
  | _ => 0

theorem Sound.endBasicHeader (h : p.Sound) (hq : p.endBasicHeader = .ok p') :
    p'.Sound ∧ p'.state = .headerExtended := by
  unfold Hybi13.endBasicHeader at hq
  split at hq
  · cases hq
  · cases hq
    refine ⟨⟨fun h => (by cases h), h.array, fun _ => ?_, ?_, fun h => (by cases h), ?_⟩, rfl⟩
    · exact (Nat.zero_add _).trans_le (getHeaderLen_le _)
    · rintro (h | h) <;> cases h
    · exact ⟨fun h => (by cases h), fun h => (by cases h)⟩

/-- The frame begins with a message to write into and the key of the frame. -/
theorem startFrame_ok (hq : p.startFrame = .ok p') :
    p'.state = p.state ∧ p'.extendedHeader = p.extendedHeader ∧
      p'.bytesNeeded = p.bytesNeeded ∧ p'.current.msgPtr.isSome ∧
      p'.current.preparedKey =
        prepareMaskingKey (getMaskingKey p.basicHeader p.extendedHeader) := by
  unfold startFrame at hq
  dsimp only at hq
  split at hq
  · cases hq
    exact ⟨rfl, rfl, rfl, rfl, rfl⟩
  · split at hq
    · split at hq
      · cases hq
      · cases hq
        exact ⟨rfl, rfl, rfl, rfl, rfl⟩
    · rename_i m hm
      split at hq
      · cases hq
      · cases hq
        exact ⟨rfl, rfl, rfl, hm ▸ rfl, rfl⟩

theorem sound_of_startFrame (harray : p.extendedHeader.bytes.length = maxExtendedHeaderLength)
    (hstate : p.state = .application) (hq : p.startFrame = .ok p') :
    p'.Sound ∧ p'.state = .application ∧ p'.bytesNeeded = p.bytesNeeded := by
  obtain ⟨h1, h2, h3, h4, h5⟩ := startFrame_ok hq
  have hs : p'.state = .application := h1.trans hstate
  refine ⟨⟨fun hb => ?_, h2 ▸ harray, fun he => ?_, fun _ => h4, fun _ => ?_, ?_⟩, hs, h3⟩
  · cases hs.symm.trans hb
  · cases hs.symm.trans he
  · exact ⟨_, 0, h5 ▸ turned_prepare _⟩
  · rw [hs]
    exact ⟨fun h => (by cases h), fun h => (by cases h)⟩

theorem Sound.endExtendedHeader (h : p.Sound) (hq : p.endExtendedHeader = .ok p') :
    p'.Sound ∧ p'.state = .application := by
  unfold Hybi13.endExtendedHeader at hq
  split at hq
  · cases hq
  · obtain ⟨h1, h2, -⟩ := sound_of_startFrame (p := { p with
      state := .application, bytesNeeded := getPayloadSize p.basicHeader p.extendedHeader })
      h.array rfl hq
    exact ⟨h1, h2⟩

theorem Sound.endFrame (h : p.Sound) (hstate : p.state = .application)
    (hq : p.endFrame = .ok p') : p'.Sound ∧ p'.rank = 0 := by
  unfold Hybi13.endFrame at hq
  split at hq
  · unfold finalizeMessage at hq
    split at hq
    · cases hq
    · cases hq
      refine ⟨⟨fun h => (by cases h), h.array, fun h => (by cases h), fun _ => ?_,
        fun h => (by cases h), ?_⟩, rfl⟩
      · exact h.message (Or.inl hstate)
      · exact ⟨fun h => (by cases h), fun h => (by cases h)⟩
  · cases hq
    exact ⟨sound_resetHeaders p, rfl⟩

theorem Sound.endField (h : p.Sound) (hready : p.state ≠ .ready) (h0 : p.bytesNeeded = 0)
    (hq : p.endField = .ok p') : p'.Sound ∧ p'.rank < p.rank := by
  unfold Hybi13.endField at hq
  cases hstate : p.state with
  | headerBasic =>
    rw [hstate] at hq
    obtain ⟨h1, h2⟩ := h.endBasicHeader hq
    refine ⟨h1, ?_⟩
    simp only [rank, h2, hstate, h0, if_true]
    decide
  | headerExtended =>
    rw [hstate] at hq
    obtain ⟨h1, h2⟩ := h.endExtendedHeader hq
    refine ⟨h1, ?_⟩
    simp only [rank, h2, hstate]
    decide
  | application =>
    rw [hstate] at hq
    obtain ⟨h1, h2⟩ := h.endFrame hstate hq
    refine ⟨h1, ?_⟩
    simp only [rank, hstate] at h2 ⊢
    omega
  | extension => exact absurd hstate h.inside.1
  | fatalError => exact absurd hstate h.inside.2
  | ready => exact absurd hstate hready

/-- What is left to do, in bytes and fields. -/
def weight (p : Hybi13) (buf : List UInt8) : ℕ := 4 * buf.length + p.rank

theorem rank_le (p : Hybi13) : p.rank ≤ 3 := by
  unfold rank
  split
  · split_ifs <;> decide
  all_goals decide

theorem continues_iff (buf : List UInt8) : p.continues buf ↔
    p.state ≠ .ready ∧ p.state ≠ .fatalError ∧ (buf ≠ [] ∨ p.bytesNeeded = 0) := by
  simp [continues, and_assoc]

theorem rank_congr {q : Hybi13} (hs : q.state = p.state) (hn : q.bytesNeeded = p.bytesNeeded) :
    q.rank = p.rank := by
  unfold rank
  rw [hs, hn]

theorem Sound.consumeRound (h : p.Sound) (hready : p.state ≠ .ready)
    (hr : p.consumeRound buf = .ok (p', rest)) :
    p'.Sound ∧ rest = buf.drop p.bytesNeeded ∧
      (buf.length < p.bytesNeeded → 0 < p'.bytesNeeded ∧ p'.state = p.state) ∧
      (p.continues buf → p'.weight rest < p.weight buf) := by
  have hlen : (buf.take p.bytesNeeded).length = min p.bytesNeeded buf.length := List.length_take
  rw [consumeRound_eq h hready] at hr
  cases hq : p.readField (buf.take p.bytesNeeded) with
  | error ec =>
    rw [hq] at hr
    cases hr
  | ok q =>
    obtain ⟨h1, h2, h3⟩ := h.readField hready (List.length_take_le _ _) hq
    rw [hq] at hr
    replace hr : (do
        let q ← (if q.bytesNeeded > 0 then .ok q else q.endField)
        return (q, buf.drop p.bytesNeeded)) = Except.ok (p', rest) := hr
    rw [hlen] at h3
    have hdrop : (buf.drop p.bytesNeeded).length = buf.length - p.bytesNeeded := List.length_drop
    by_cases hpos : q.bytesNeeded > 0
    · rw [if_pos hpos] at hr
      cases hr
      refine ⟨h1, rfl, fun _ => ⟨hpos, h2⟩, fun hc => ?_⟩
      have hne : 0 < buf.length := by
        rcases ((continues_iff buf).mp hc).2.2 with hne | h0
        · exact List.length_pos_of_ne_nil hne
        · omega
      have hrank := p'.rank_le
      unfold weight
      omega
    · rw [if_neg hpos] at hr
      cases he : q.endField with
      | error ec =>
        rw [he] at hr
        cases hr
      | ok r =>
        rw [he] at hr
        cases hr
        obtain ⟨h4, h5⟩ := h1.endField (h2 ▸ hready) (by omega) he
        refine ⟨h4, rfl, fun hlt => by omega, fun hc => ?_⟩
        unfold weight
        rcases Nat.eq_zero_or_pos p.bytesNeeded with h0 | hp
        · have hrank := rank_congr h2 (by omega)
          omega
        · have hrank := p'.rank_le
          omega

/-- A round that has all of the field it reads does not look beyond it. -/
theorem consumeRound_append_of_le (h : p.Sound) (hready : p.state ≠ .ready) {a : List UInt8}
    (ha : p.bytesNeeded ≤ a.length) (b : List UInt8) :
    p.consumeRound (a ++ b) = (fun q => (q.1, q.2 ++ b)) <$> p.consumeRound a := by
  rw [consumeRound_eq h hready, consumeRound_eq h hready, List.take_append_of_le_length ha,
    List.drop_append_of_le_length ha]
  cases hq : p.readField (a.take p.bytesNeeded) with
  | error ec => rfl
  | ok q =>
    change (do
      let q ← (if q.bytesNeeded > 0 then Except.ok q else q.endField)
      return (q, a.drop p.bytesNeeded ++ b)) = (fun q => (q.1, q.2 ++ b)) <$> (do
      let q ← (if q.bytesNeeded > 0 then Except.ok q else q.endField)
      return (q, a.drop p.bytesNeeded))
    cases (if q.bytesNeeded > 0 then Except.ok q else q.endField) <;> rfl

/-- A round that runs out of bytes leaves the rest of the field to the next one. -/
theorem consumeRound_append_of_lt (h : p.Sound) (hready : p.state ≠ .ready) {a : List UInt8}
    (ha : a.length < p.bytesNeeded) (b : List UInt8) :
    p.consumeRound (a ++ b) = p.consumeRound a >>= fun q => q.1.consumeRound b := by
  have hle : (a ++ b.take (p.bytesNeeded - a.length)).length ≤ p.bytesNeeded := by
    rw [List.length_append, List.length_take]
    omega
  rw [consumeRound_eq h hready, consumeRound_eq h hready, List.take_append,
    List.take_of_length_le ha.le, readField_append h hready hle, List.drop_append,
    List.drop_of_length_le ha.le, List.nil_append]
  cases hq : p.readField a with
  | error ec => rfl
  | ok q =>
    have hle' : a.length ≤ p.bytesNeeded := ha.le
    obtain ⟨h1, h2, h3⟩ := h.readField hready hle' hq
    have hpos : q.bytesNeeded > 0 := by omega
    change _ = (do
      let q ← (do
        let q ← (if q.bytesNeeded > 0 then Except.ok q else q.endField)
        return (q, []))
      q.1.consumeRound b)
    rw [if_pos hpos]
    change _ = q.consumeRound b
    rw [consumeRound_eq h1 (h2 ▸ hready), h3]
    rfl

/-! ### The loop -/

theorem consumeLoop_stable {fuel fuel' : ℕ} (h : p.Sound) (hf : p.weight buf < fuel)
    (hf' : p.weight buf < fuel') : consumeLoop fuel p buf = consumeLoop fuel' p buf := by
  induction fuel generalizing p buf fuel' with
  | zero => exact absurd hf (Nat.not_lt_zero _)
  | succ fuel ih =>
    obtain ⟨fuel', rfl⟩ := Nat.exists_eq_succ_of_ne_zero (Nat.ne_of_gt (Nat.zero_lt_of_lt hf'))
    unfold consumeLoop
    by_cases hc : p.continues buf
    · rw [if_pos hc, if_pos hc]
      cases hr : p.consumeRound buf with
      | error ec => rfl
      | ok q =>
        obtain ⟨q, rest⟩ := q
        obtain ⟨h1, -, -, h4⟩ := h.consumeRound ((continues_iff buf).mp hc).1 hr
        have hlt := h4 hc
        exact ih h1 (by omega) (by omega)
    · rw [if_neg hc, if_neg hc]

/-- The loop, without its fuel. -/
theorem consume_eq (h : p.Sound) (buf : List UInt8) :
    p.consume buf =
      if p.continues buf then p.consumeRound buf >>= fun q => q.1.consume q.2
      else .ok (p, buf) := by
  rw [show p.consume buf = consumeLoop (4 * buf.length + 3 + 1) p buf from rfl, consumeLoop]
  by_cases hc : p.continues buf
  · rw [if_pos hc, if_pos hc]
    cases hr : p.consumeRound buf with
    | error ec => rfl
    | ok q =>
      obtain ⟨q, rest⟩ := q
      obtain ⟨h1, -, -, h4⟩ := h.consumeRound ((continues_iff buf).mp hc).1 hr
      have hlt := h4 hc
      have hrank := p.rank_le
      have hrank' := q.rank_le
      unfold weight at hlt
      exact consumeLoop_stable h1 (by unfold weight; omega) (by unfold weight; dsimp only; omega)
  · rw [if_neg hc, if_neg hc]

theorem consume_of_continues (h : p.Sound) (hc : p.continues buf) :
    p.consume buf = p.consumeRound buf >>= fun q => q.1.consume q.2 := by
  rw [consume_eq h, if_pos hc]

theorem consume_of_not_continues (h : p.Sound) (hc : ¬ p.continues buf) :
    p.consume buf = .ok (p, buf) := by
  rw [consume_eq h, if_neg hc]

theorem consume_of_ready (h : p.state = .ready) (buf : List UInt8) :
    p.consume buf = .ok (p, buf) := by
  have hc : ¬ p.continues buf := fun hc => ((continues_iff buf).mp hc).1 h
  rw [show p.consume buf = consumeLoop (4 * buf.length + 3 + 1) p buf from rfl, consumeLoop,
    if_neg hc]

/-- The state in which the loop ends without a message: in the middle of a field. -/
structure Reading (p : Hybi13) : Prop where
  sound : p.Sound
  notReady : p.state ≠ .ready
  needed : 0 < p.bytesNeeded

theorem Reading.not_continues_nil (h : p.Reading) : ¬ p.continues [] := by
  rw [continues_iff]
  rintro ⟨-, -, hne | h0⟩
  · exact hne rfl
  · exact h.needed.ne' h0

theorem Reading.continues (h : p.Reading) (hne : buf ≠ []) : p.continues buf :=
  (continues_iff buf).mpr ⟨h.notReady, h.sound.inside.2, Or.inl hne⟩

theorem Reading.consume_nil (h : p.Reading) : p.consume [] = .ok (p, []) :=
  consume_of_not_continues h.sound h.not_continues_nil

/-- The loop ends with a message, or with all bytes read. -/
theorem Sound.consume (h : p.Sound) (hr : p.consume buf = .ok (p', rest)) :
    p'.Sound ∧ rest.length ≤ buf.length ∧ (p'.state = .ready ∨ p'.Reading ∧ rest = []) := by
  induction hn : p.weight buf using Nat.strong_induction_on generalizing p buf with
  | _ n ih =>
    by_cases hc : p.continues buf
    · rw [consume_of_continues h hc] at hr
      cases hq : p.consumeRound buf with
      | error ec =>
        rw [hq] at hr
        cases hr
      | ok q =>
        obtain ⟨q, buf'⟩ := q
        rw [hq] at hr
        obtain ⟨h1, h2, -, h4⟩ := h.consumeRound ((continues_iff buf).mp hc).1 hq
        obtain ⟨h5, h6, h7⟩ := ih _ (hn ▸ h4 hc) h1 hr rfl
        have hlen : buf'.length ≤ buf.length := by
          rw [h2, List.length_drop]
          exact Nat.sub_le _ _
        exact ⟨h5, h6.trans hlen, h7⟩
    · rw [consume_of_not_continues h hc] at hr
      cases hr
      refine ⟨h, le_rfl, ?_⟩
      by_cases hready : p'.state = .ready
      · exact Or.inl hready
      · have hstop : rest = [] ∧ 0 < p'.bytesNeeded := by
          rw [continues_iff] at hc
          by_contra hnot
          refine hc ⟨hready, h.inside.2, ?_⟩
          by_cases hne : rest = []
          · exact Or.inr (Nat.eq_zero_of_not_pos fun hpos => hnot ⟨hne, hpos⟩)
          · exact Or.inl hne
        exact Or.inr ⟨⟨h, hready, hstop.2⟩, hstop.1⟩

theorem Reading.not_ready (h : p.Reading) : p.ready = false := by
  simp [ready, h.notReady]

/-- A whole field is read and ended, and the loop goes on after it. -/
theorem consume_field (h : p.Sound) (hready : p.state ≠ .ready) {a : List UInt8}
    (ha : a.length = p.bytesNeeded) (b : List UInt8) :
    p.consume (a ++ b) = (do
      let q ← p.readField a
      let r ← q.endField
      r.consume b) := by
  have hc : p.continues (a ++ b) := by
    refine (continues_iff _).mpr ⟨hready, h.inside.2, ?_⟩
    rcases Nat.eq_zero_or_pos p.bytesNeeded with h0 | hpos
    · exact Or.inr h0
    · have hne : a ≠ [] := List.ne_nil_of_length_pos (ha ▸ hpos)
      exact Or.inl (by simp [hne])
  rw [consume_of_continues h hc, consumeRound_eq h hready, List.take_left' ha, List.drop_left' ha]
  cases hq : p.readField a with
  | error ec => rfl
  | ok q =>
    have hn := (h.readField hready ha.le hq).2.2
    change ((do
      let q ← (if q.bytesNeeded > 0 then Except.ok q else q.endField)
      return (q, b)) >>= fun q => q.1.consume q.2) = q.endField >>= fun r => r.consume b
    rw [if_neg (by omega)]
    cases q.endField <;> rfl

/-- A buffer that ends within the field does not make a message ready. -/
theorem consume_short (h : p.Sound) (hready : p.state ≠ .ready) (ha : buf.length < p.bytesNeeded)
    (hr : p.consume buf = .ok (p', rest)) : p'.state ≠ .ready := by
  by_cases hne : buf = []
  · have hread : p.Reading := ⟨h, hready, Nat.zero_lt_of_lt ha⟩
    rw [hne, hread.consume_nil] at hr
    cases hr
    exact hready
  · have hc : p.continues buf := (continues_iff buf).mpr ⟨hready, h.inside.2, Or.inl hne⟩
    rw [consume_of_continues h hc] at hr
    cases hq : p.consumeRound buf with
    | error ec =>
      rw [hq] at hr
      cases hr
    | ok q =>
      obtain ⟨q, buf'⟩ := q
      obtain ⟨h1, h2, h3, -⟩ := h.consumeRound hready hq
      obtain ⟨hpos, hstate⟩ := h3 ha
      have hread : q.Reading := ⟨h1, hstate ▸ hready, hpos⟩
      rw [List.drop_of_length_le ha.le] at h2
      rw [hq, h2] at hr
      replace hr : q.consume [] = .ok (p', rest) := hr
      rw [hread.consume_nil] at hr
      cases hr
      exact hread.notReady

/-- Bytes after the buffer are read after it. -/
theorem consume_append (h : p.Sound) (a b : List UInt8) :
    p.consume (a ++ b) = p.consume a >>= fun q =>
      if q.1.ready then .ok (q.1, q.2 ++ b) else q.1.consume b := by
  by_cases hb : b = []
  · subst hb
    cases hq : p.consume a with
    | error ec => rw [List.append_nil, hq]; rfl
    | ok q =>
      obtain ⟨q, rest⟩ := q
      rw [List.append_nil, hq]
      change _ = (if q.ready then Except.ok (q, rest ++ []) else q.consume [])
      obtain ⟨-, -, hready | ⟨hread, hrest⟩⟩ := h.consume hq
      · rw [if_pos (by simp [ready, hready]), List.append_nil]
      · rw [if_neg (by simp [hread.not_ready]), hread.consume_nil, hrest]
  induction hn : p.weight a using Nat.strong_induction_on generalizing p a with
  | _ n ih =>
    by_cases hc : p.continues a
    · obtain ⟨hready, hfatal, hmore⟩ := (continues_iff a).mp hc
      have hc' : p.continues (a ++ b) :=
        (continues_iff _).mpr ⟨hready, hfatal, hmore.imp_left fun hne => by simp [hne]⟩
      rw [consume_of_continues h hc', consume_of_continues h hc]
      rcases Nat.lt_or_ge a.length p.bytesNeeded with hlt | hle
      · rw [consumeRound_append_of_lt h hready hlt]
        cases hq : p.consumeRound a with
        | error ec => rfl
        | ok q =>
          obtain ⟨q, rest⟩ := q
          obtain ⟨h1, h2, h3, -⟩ := h.consumeRound hready hq
          obtain ⟨hpos, hstate⟩ := h3 hlt
          have hread : q.Reading := ⟨h1, hstate ▸ hready, hpos⟩
          rw [List.drop_of_length_le hlt.le] at h2
          subst h2
          change (q.consumeRound b >>= fun q => q.1.consume q.2) = (q.consume [] >>= fun q =>
            if q.1.ready then .ok (q.1, q.2 ++ b) else q.1.consume b)
          rw [hread.consume_nil, ← consume_of_continues h1 (hread.continues hb)]
          change _ = (if q.ready then Except.ok (q, [] ++ b) else q.consume b)
          rw [if_neg (by simp [hread.not_ready])]
      · rw [consumeRound_append_of_le h hready hle]
        cases hq : p.consumeRound a with
        | error ec => rfl
        | ok q =>
          obtain ⟨q, rest⟩ := q
          obtain ⟨h1, -, -, h4⟩ := h.consumeRound hready hq
          exact ih _ (hn ▸ h4 hc) h1 rest rfl
    · rw [consume_of_not_continues h hc]
      change _ = (if p.ready then Except.ok (p, a ++ b) else p.consume b)
      by_cases hready : p.state = .ready
      · have hc' : ¬ p.continues (a ++ b) := fun hc => ((continues_iff _).mp hc).1 hready
        rw [consume_of_not_continues h hc', if_pos (by simp [ready, hready])]
      · have hnil : a = [] := by
          by_contra hne
          exact hc ((continues_iff a).mpr ⟨hready, h.inside.2, Or.inl hne⟩)
        rw [if_neg (by simp [ready, hready]), hnil, List.nil_append]

/-- The first byte of a buffer is read. -/
theorem Reading.consume_length (h : p.Reading) (hne : buf ≠ [])
    (hr : p.consume buf = .ok (p', rest)) : rest.length < buf.length := by
  rw [consume_of_continues h.sound (h.continues hne)] at hr
  cases hq : p.consumeRound buf with
  | error ec =>
    rw [hq] at hr
    cases hr
  | ok q =>
    obtain ⟨q, buf'⟩ := q
    rw [hq] at hr
    obtain ⟨h1, h2, -, -⟩ := h.sound.consumeRound h.notReady hq
    obtain ⟨-, h3, -⟩ := h1.consume hr
    have hpos := h.needed
    have hlen := List.length_pos_of_ne_nil hne
    rw [h2, List.length_drop] at h3
    omega

/-- The processor without the message that is taken from it. -/
def taken (p : Hybi13) (m : Message) : Hybi13 :=
  let p := p.setCurrent { p.current with msgPtr := none }
  let p :=
    if m.opcode.isControl then { p with controlMsg := { p.controlMsg with msgPtr := none } }
    else { p with dataMsg := { p.dataMsg with msgPtr := none } }
  p.resetHeaders

@[simp] theorem server_taken (p : Hybi13) (m : Message) : (p.taken m).server = p.server := by
  unfold taken setCurrent
  cases p.currentMsg <;> cases m.opcode.isControl <;> rfl

@[simp] theorem maxMessageSize_taken (p : Hybi13) (m : Message) :
    (p.taken m).maxMessageSize = p.maxMessageSize := by
  unfold taken setCurrent
  cases p.currentMsg <;> cases m.opcode.isControl <;> rfl

theorem dataMsg_taken_control (hslot : p.currentMsg = .control) {m : Message}
    (hm : m.opcode.isControl) : (p.taken m).dataMsg = p.dataMsg := by
  unfold taken setCurrent
  rw [hslot, hm]
  rfl

theorem dataMsg_taken_data (hslot : p.currentMsg = .data) (m : Message) :
    (p.taken m).dataMsg.msgPtr = none := by
  unfold taken setCurrent
  rw [hslot]
  cases m.opcode.isControl <;> rfl

theorem getMessage_eq {m : Message} (hs : p.state = .ready) (hm : p.current.msgPtr = some m) :
    p.getMessage = (some m, p.taken m) := by
  unfold getMessage taken
  rw [show p.ready = true by simp [ready, hs], hm]
  rfl

theorem Sound.getMessage (h : p.Sound) (hready : p.state = .ready) : p.getMessage.2.Reading := by
  obtain ⟨m, hm⟩ := Option.isSome_iff_exists.mp (h.message (Or.inr hready))
  rw [getMessage_eq hready hm]
  exact ⟨sound_resetHeaders _, fun h => (by cases h), Nat.two_pos⟩

end PeerApi.Websocket.Hybi13

/-! ### The stream -/

namespace PeerApi.Websocket

open Hybi13

variable {p q : Hybi13} {buf rest : List UInt8}

theorem Received.after_after (r : Received) (ms ms' : List Message) :
    (r.after ms).after ms' = r.after (ms' ++ ms) := by
  unfold Received.after
  rw [List.append_assoc]

theorem receiveLoop_nil (fuel : ℕ) (p : Hybi13) : receiveLoop fuel p [] = { result := .ok p } := by
  cases fuel <;> rfl

theorem receiveLoop_stable {fuel fuel' : ℕ} (h : p.Reading) (hf : buf.length ≤ fuel)
    (hf' : buf.length ≤ fuel') : receiveLoop fuel p buf = receiveLoop fuel' p buf := by
  induction fuel generalizing p buf fuel' with
  | zero =>
    rw [List.eq_nil_of_length_eq_zero (Nat.le_zero.mp hf), receiveLoop_nil, receiveLoop_nil]
  | succ fuel ih =>
    by_cases hne : buf = []
    · rw [hne, receiveLoop_nil, receiveLoop_nil]
    · have hpos := List.length_pos_of_ne_nil hne
      obtain ⟨fuel', rfl⟩ := Nat.exists_eq_succ_of_ne_zero (show fuel' ≠ 0 by omega)
      unfold receiveLoop
      rw [if_neg hne, if_neg hne]
      cases hq : p.consume buf with
      | error ec => rfl
      | ok q =>
        obtain ⟨q, rest⟩ := q
        have hlt := h.consume_length hne hq
        dsimp only
        obtain ⟨h1, -, hready | ⟨hread, hrest⟩⟩ := h.sound.consume hq
        · have hloop : receiveLoop fuel q.getMessage.2 rest =
              receiveLoop fuel' q.getMessage.2 rest :=
            ih (h1.getMessage hready) (by omega) (by omega)
          rw [if_pos (by simp [ready, hready]), if_pos (by simp [ready, hready]), hloop]
        · rw [if_neg (by simp [hread.not_ready]), if_neg (by simp [hread.not_ready]),
            hrest, receiveLoop_nil, receiveLoop_nil]

@[simp] theorem receive_nil (p : Hybi13) : receive p [] = { result := .ok p } := rfl

theorem receive_of_error (hne : buf ≠ []) {ec : ProcessorError} (hq : p.consume buf = .error ec) :
    receive p buf = { result := .error ec } := by
  obtain ⟨b, buf, rfl⟩ := List.exists_cons_of_ne_nil hne
  rw [receive, List.length_cons, receiveLoop, if_neg hne, hq]

theorem receive_of_ready (h : p.Reading) (hne : buf ≠ []) (hq : p.consume buf = .ok (q, rest))
    (hready : q.state = .ready) :
    receive p buf = (receive q.getMessage.2 rest).after q.getMessage.1.toList := by
  have hlt := h.consume_length hne hq
  have hsound := (h.sound.consume hq).1
  obtain ⟨b, buf, rfl⟩ := List.exists_cons_of_ne_nil hne
  rw [receive, List.length_cons, receiveLoop, if_neg hne, hq]
  dsimp only
  rw [if_pos (by simp [ready, hready]), receiveLoop_stable (hsound.getMessage hready)
    (Nat.lt_succ_iff.mp hlt) le_rfl]
  rfl

theorem receive_of_reading (hne : buf ≠ []) (hq : p.consume buf = .ok (q, []))
    (hread : q.Reading) : receive p buf = { result := .ok q } := by
  obtain ⟨b, buf, rfl⟩ := List.exists_cons_of_ne_nil hne
  rw [receive, List.length_cons, receiveLoop, if_neg hne, hq]
  dsimp only
  rw [if_neg (by simp [hread.not_ready]), receiveLoop_nil]

theorem Hybi13.Reading.receive (h : p.Reading) (hq : (receive p buf).result = .ok q) :
    q.Reading := by
  induction hn : buf.length using Nat.strong_induction_on generalizing p buf with
  | _ n ih =>
    by_cases hne : buf = []
    · subst hne
      cases hq
      exact h
    · cases hc : p.consume buf with
      | error ec =>
        rw [receive_of_error hne hc] at hq
        cases hq
      | ok r =>
        obtain ⟨r, rest⟩ := r
        obtain ⟨h1, -, hready | ⟨hread, hrest⟩⟩ := h.sound.consume hc
        · rw [receive_of_ready h hne hc hready] at hq
          exact ih _ (hn ▸ h.consume_length hne hc) (h1.getMessage hready) hq rfl
        · subst hrest
          rw [receive_of_reading hne hc hread] at hq
          cases hq
          exact hread

theorem receive_congr (hp : p.Reading) (hq : q.Reading) {b : List UInt8} (hne : buf ≠ [])
    (hb : b ≠ []) (hc : p.consume buf = q.consume b) : receive p buf = receive q b := by
  cases hr : q.consume b with
  | error ec => rw [receive_of_error hne (hc.trans hr), receive_of_error hb hr]
  | ok r =>
    obtain ⟨r, rest⟩ := r
    obtain ⟨-, -, hready | ⟨hread, hrest⟩⟩ := hq.sound.consume hr
    · rw [receive_of_ready hp hne (hc.trans hr) hready, receive_of_ready hq hb hr hready]
    · subst hrest
      rw [receive_of_reading hne (hc.trans hr) hread, receive_of_reading hb hr hread]

/-- A buffer cut in two is read like the two parts. -/
theorem receive_append (h : p.Reading) (a b : List UInt8) :
    receive p (a ++ b) =
      match (receive p a).result with
      | .error _ => receive p a
      | .ok q => (receive q b).after (receive p a).messages := by
  induction hn : a.length using Nat.strong_induction_on generalizing p a with
  | _ n ih =>
    by_cases hne : a = []
    · subst hne
      rfl
    · have hne' : a ++ b ≠ [] := by simp [hne]
      have happend := consume_append h.sound a b
      cases hc : p.consume a with
      | error ec =>
        rw [hc] at happend
        rw [receive_of_error hne hc, receive_of_error hne' happend]
      | ok r =>
        obtain ⟨r, rest⟩ := r
        rw [hc] at happend
        replace happend : p.consume (a ++ b) =
          if r.ready then .ok (r, rest ++ b) else r.consume b := happend
        obtain ⟨h1, -, hready | ⟨hread, hrest⟩⟩ := h.sound.consume hc
        · rw [if_pos (by simp [ready, hready])] at happend
          rw [receive_of_ready h hne' happend hready, receive_of_ready h hne hc hready,
            ih _ (hn ▸ h.consume_length hne hc) (h1.getMessage hready) rest rfl]
          cases hres : (receive r.getMessage.2 rest).result with
          | error ec =>
            have hres' : ((receive r.getMessage.2 rest).after r.getMessage.1.toList).result =
              .error ec := hres
            rw [hres']
          | ok q =>
            have hres' : ((receive r.getMessage.2 rest).after r.getMessage.1.toList).result =
              .ok q := hres
            rw [hres']
            exact Received.after_after _ _ _
        · subst hrest
          rw [if_neg (by simp [hread.not_ready])] at happend
          rw [receive_of_reading hne hc hread]
          change receive p (a ++ b) = receive r b
          by_cases hb : b = []
          · subst hb
            rw [List.append_nil, receive_of_reading hne hc hread, receive_nil]
          · exact receive_congr h hread hne' hb happend

/-- A stream gives the same messages, the same error or the same processor, however it is
cut into buffers. -/
theorem receiveAll_eq (h : p.Reading) (bufs : List (List UInt8)) :
    receiveAll p bufs = receive p bufs.flatten := by
  induction bufs generalizing p with
  | nil => rfl
  | cons buf bufs ih =>
    rw [receiveAll, List.flatten_cons, receive_append h]
    cases hres : (receive p buf).result with
    | error ec => rfl
    | ok q =>
      dsimp only
      rw [ih (h.receive hres)]

end PeerApi.Websocket
