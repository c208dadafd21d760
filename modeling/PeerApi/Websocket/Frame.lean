import PeerApi.Base.Bytes

/-! The frames of the websocket library: opcodes, headers and masks, as they stand in the
memory of a little-endian machine with words of 64 bits. A header is read back as it was
written, every header read is the one written for what it says, and a mask applied in
pieces is the mask applied at once. -/

namespace PeerApi.Websocket

open Base

inductive Opcode where
  | continuation
  | text
  | binary
  | rsv3
  | rsv4
  | rsv5
  | rsv6
  | rsv7
  | close
  | ping
  | pong
  | controlRsvb
  | controlRsvc
  | controlRsvd
  | controlRsve
  | controlRsvf
  deriving DecidableEq, Repr

namespace Opcode

def value : Opcode → UInt8
  | continuation => 0x0
  | text => 0x1
  | binary => 0x2
  | rsv3 => 0x3
  | rsv4 => 0x4
  | rsv5 => 0x5
  | rsv6 => 0x6
  | rsv7 => 0x7
  | close => 0x8
  | ping => 0x9
  | pong => 0xA
  | controlRsvb => 0xB
  | controlRsvc => 0xC
  | controlRsvd => 0xD
  | controlRsve => 0xE
  | controlRsvf => 0xF

/-- The opcode of four bits. -/
def ofValue (v : UInt8) : Opcode :=
  [continuation, text, binary, rsv3, rsv4, rsv5, rsv6, rsv7, close, ping, pong, controlRsvb,
    controlRsvc, controlRsvd, controlRsve, controlRsvf].getD v.toNat continuation

def reserved (v : Opcode) : Bool :=
  (v.value ≥ rsv3.value && v.value ≤ rsv7.value) ||
    (v.value ≥ controlRsvb.value && v.value ≤ controlRsvf.value)

def invalid (v : Opcode) : Bool := v.value > 0xF

def isControl (v : Opcode) : Bool := v.value ≥ 0x8

theorem ofValue_value (op : Opcode) : ofValue op.value = op := by cases op <;> rfl

theorem not_invalid (op : Opcode) : op.invalid = false := by cases op <;> rfl

end Opcode

def basicHeaderLength : ℕ := 2

def maxExtendedHeaderLength : ℕ := 12

def payloadSizeBasic : ℕ := 125

def payloadSizeExtended : ℕ := 0xFFFF

def bhb0Opcode : UInt8 := 0x0F
def bhb0Rsv3 : UInt8 := 0x10
def bhb0Rsv2 : UInt8 := 0x20
def bhb0Rsv1 : UInt8 := 0x40
def bhb0Fin : UInt8 := 0x80
def bhb1Payload : UInt8 := 0x7F
def bhb1Mask : UInt8 := 0x80

def payloadSizeCode16bit : UInt8 := 0x7E
def payloadSizeCode64bit : UInt8 := 0x7F

/-- `masking_key_type`: an integer, or its bytes `c`. -/
abbrev MaskingKey := UInt32

def MaskingKey.c (key : MaskingKey) : List UInt8 := toBytes 4 key.toNat

/-- `_htonll`, and `_ntohll` as well. -/
def htonll (n : ℕ) : ℕ := swapBytes 8 n

def ntohs (n : ℕ) : ℕ := swapBytes 2 n

/-- `std::copy` into an array. -/
def copyTo (bytes : List UInt8) (offset : ℕ) (source : List UInt8) : List UInt8 :=
  bytes.take offset ++ source ++ bytes.drop (offset + source.length)

structure BasicHeader where
  b0 : UInt8 := 0
  b1 : UInt8 := 0
  deriving DecidableEq, Repr

/-- The length in the basic header: the size itself or one of two codes. -/
def basicValue (size : ℕ) : UInt8 :=
  if size ≤ payloadSizeBasic then UInt8.ofNat size
  else if size ≤ payloadSizeExtended then payloadSizeCode16bit
  else payloadSizeCode64bit

/-- `basic_header::basic_header`. -/
def BasicHeader.new (op : Opcode) (size : ℕ) (fin mask : Bool)
    (rsv1 rsv2 rsv3 : Bool := false) : BasicHeader :=
  let b0 := if fin then bhb0Fin else 0
  let b0 := if rsv1 then b0 ||| bhb0Rsv1 else b0
  let b0 := if rsv2 then b0 ||| bhb0Rsv2 else b0
  let b0 := if rsv3 then b0 ||| bhb0Rsv3 else b0
  let b1 := if mask then bhb1Mask else 0
  ⟨b0 ||| (op.value &&& bhb0Opcode), b1 ||| basicValue size⟩

structure ExtendedHeader where
  bytes : List UInt8 := List.replicate maxExtendedHeaderLength 0
  deriving DecidableEq, Repr

/-- It returns the number of bytes that the size takes. -/
def ExtendedHeader.copyPayload (e : ExtendedHeader) (payloadSize : ℕ) : ExtendedHeader × ℕ :=
  let payloadOffset :=
    if payloadSize ≤ payloadSizeBasic then 8
    else if payloadSize ≤ payloadSizeExtended then 6
    else 0
  let temp64 := toBytes 8 (htonll payloadSize)
  (⟨copyTo e.bytes 0 (temp64.drop payloadOffset)⟩, 8 - payloadOffset)

/-- The extended header of a frame that is not masked. -/
def ExtendedHeader.unmasked (payloadSize : ℕ) : ExtendedHeader :=
  (ExtendedHeader.copyPayload {} payloadSize).1

def ExtendedHeader.masked (payloadSize : ℕ) (key : MaskingKey) : ExtendedHeader :=
  let (e, offset) := ExtendedHeader.copyPayload {} payloadSize
  ⟨copyTo e.bytes offset key.c⟩

def getFin (h : BasicHeader) : Bool := (h.b0 &&& bhb0Fin) == bhb0Fin

def getRsv1 (h : BasicHeader) : Bool := (h.b0 &&& bhb0Rsv1) == bhb0Rsv1

def getRsv2 (h : BasicHeader) : Bool := (h.b0 &&& bhb0Rsv2) == bhb0Rsv2

def getRsv3 (h : BasicHeader) : Bool := (h.b0 &&& bhb0Rsv3) == bhb0Rsv3

def getOpcode (h : BasicHeader) : Opcode := Opcode.ofValue (h.b0 &&& bhb0Opcode)

def getMasked (h : BasicHeader) : Bool := (h.b1 &&& bhb1Mask) == bhb1Mask

def getBasicSize (h : BasicHeader) : UInt8 := h.b1 &&& bhb1Payload

def getMaskingKeyOffset (h : BasicHeader) : ℕ :=
  if getBasicSize h = payloadSizeCode16bit then 2
  else if getBasicSize h = payloadSizeCode64bit then 8
  else 0

def getHeaderLen (h : BasicHeader) : ℕ :=
  basicHeaderLength + getMaskingKeyOffset h + if getMasked h then 4 else 0

def prepareHeader (h : BasicHeader) (e : ExtendedHeader) : List UInt8 :=
  h.b0 :: h.b1 :: e.bytes.take (getHeaderLen h - basicHeaderLength)

def getMaskingKey (h : BasicHeader) (e : ExtendedHeader) : MaskingKey :=
  if !getMasked h then 0
  else UInt32.ofNat (ofBytes ((e.bytes.drop (getMaskingKeyOffset h)).take 4))

def getExtendedSize (e : ExtendedHeader) : ℕ := ntohs (ofBytes (e.bytes.take 2))

def getJumboSize (e : ExtendedHeader) : ℕ := htonll (ofBytes (e.bytes.take 8))

def getPayloadSize (h : BasicHeader) (e : ExtendedHeader) : ℕ :=
  let val := getBasicSize h
  if val.toNat ≤ payloadSizeBasic then val.toNat
  else if val = payloadSizeCode16bit then getExtendedSize e
  else getJumboSize e

/-- The key twice in a word. -/
def prepareMaskingKey (key : MaskingKey) : UInt64 :=
  key.toUInt64 <<< 32 ||| key.toUInt64

/-- A shift by a whole word, at offset 0, is taken as the machine does it, as none. -/
def circshiftPreparedKey (preparedKey : UInt64) (offset : ℕ) : UInt64 :=
  preparedKey >>> UInt64.ofNat (offset * 8) ||| preparedKey <<< UInt64.ofNat ((8 - offset) * 8)

/-- The loop of `byte_mask`. -/
def byteMaskFrom (key : MaskingKey) : ℕ → List UInt8 → List UInt8
  | _, [] => []
  | keyIndex, b :: bs => (b ^^^ key.c.getD keyIndex 0) :: byteMaskFrom key ((keyIndex + 1) % 4) bs

def byteMask (input : List UInt8) (key : MaskingKey) (keyOffset : ℕ := 0) : List UInt8 :=
  byteMaskFrom key (keyOffset % 4) input

/-- It returns the key for the bytes to come. -/
def byteMaskCirc (input : List UInt8) (preparedKey : UInt64) : List UInt8 × UInt64 :=
  let key : MaskingKey := preparedKey.toUInt32
  (input.mapIdx fun i b => b ^^^ key.c.getD (i % 4) 0,
    circshiftPreparedKey preparedKey (input.length % 4))

/-! ### Headers -/

theorem forall_byte {P : UInt8 → Prop} (h : ∀ n < 256, P (UInt8.ofNat n)) (b : UInt8) : P b := by
  have hb := h b.toNat b.toNat_lt
  rwa [UInt8.ofNat_toNat] at hb

section new

variable (op : Opcode) (size : ℕ) (fin mask rsv1 rsv2 rsv3 : Bool)

/-- The first byte holds the flags and the opcode side by side. -/
theorem flags_new :
    getFin (.new op size fin mask rsv1 rsv2 rsv3) = fin ∧
      getRsv1 (.new op size fin mask rsv1 rsv2 rsv3) = rsv1 ∧
      getRsv2 (.new op size fin mask rsv1 rsv2 rsv3) = rsv2 ∧
      getRsv3 (.new op size fin mask rsv1 rsv2 rsv3) = rsv3 ∧
      getOpcode (.new op size fin mask rsv1 rsv2 rsv3) = op := by
  have h : ∀ fin rsv1 rsv2 rsv3 : Bool,
      getFin (.new op 0 fin false rsv1 rsv2 rsv3) = fin ∧
      getRsv1 (.new op 0 fin false rsv1 rsv2 rsv3) = rsv1 ∧
      getRsv2 (.new op 0 fin false rsv1 rsv2 rsv3) = rsv2 ∧
      getRsv3 (.new op 0 fin false rsv1 rsv2 rsv3) = rsv3 ∧
      getOpcode (.new op 0 fin false rsv1 rsv2 rsv3) = op := by
    cases op <;> decide +kernel
  exact h fin rsv1 rsv2 rsv3

@[simp] theorem getFin_new : getFin (.new op size fin mask rsv1 rsv2 rsv3) = fin :=
  (flags_new op size fin mask rsv1 rsv2 rsv3).1

@[simp] theorem getRsv1_new : getRsv1 (.new op size fin mask rsv1 rsv2 rsv3) = rsv1 :=
  (flags_new op size fin mask rsv1 rsv2 rsv3).2.1

@[simp] theorem getRsv2_new : getRsv2 (.new op size fin mask rsv1 rsv2 rsv3) = rsv2 :=
  (flags_new op size fin mask rsv1 rsv2 rsv3).2.2.1

@[simp] theorem getRsv3_new : getRsv3 (.new op size fin mask rsv1 rsv2 rsv3) = rsv3 :=
  (flags_new op size fin mask rsv1 rsv2 rsv3).2.2.2.1

@[simp] theorem getOpcode_new : getOpcode (.new op size fin mask rsv1 rsv2 rsv3) = op :=
  (flags_new op size fin mask rsv1 rsv2 rsv3).2.2.2.2

theorem basicValue_lt : (basicValue size).toNat < 128 := by
  unfold basicValue payloadSizeBasic
  split_ifs with h1 h2
  · rw [UInt8.toNat_ofNat']
    omega
  · decide
  · decide

theorem b1_parts (b : UInt8) : b.toNat < 128 →
    ((if mask then bhb1Mask else 0) ||| b) &&& bhb1Payload = b ∧
      ((((if mask then bhb1Mask else 0) ||| b) &&& bhb1Mask) == bhb1Mask) = mask := by
  revert b
  apply forall_byte
  cases mask <;> decide +kernel

@[simp] theorem getMasked_new : getMasked (.new op size fin mask rsv1 rsv2 rsv3) = mask :=
  (b1_parts mask (basicValue size) (basicValue_lt size)).2

@[simp] theorem getBasicSize_new :
    getBasicSize (.new op size fin mask rsv1 rsv2 rsv3) = basicValue size :=
  (b1_parts mask (basicValue size) (basicValue_lt size)).1

end new

/-- A basic header is the one written for what it says. -/
theorem new_get (h : BasicHeader) {size : ℕ} (hsize : basicValue size = getBasicSize h) :
    BasicHeader.new (getOpcode h) size (getFin h) (getMasked h) (getRsv1 h) (getRsv2 h)
      (getRsv3 h) = h := by
  obtain ⟨b0, b1⟩ := h
  have h0 : (BasicHeader.new (getOpcode ⟨b0, 0⟩) 0 (getFin ⟨b0, 0⟩) false (getRsv1 ⟨b0, 0⟩)
      (getRsv2 ⟨b0, 0⟩) (getRsv3 ⟨b0, 0⟩)).b0 = b0 := by
    clear hsize
    revert b0
    apply forall_byte
    decide +kernel
  have h1 : (if (b1 &&& bhb1Mask) == bhb1Mask then bhb1Mask else 0) ||| (b1 &&& bhb1Payload) =
      b1 := by
    clear hsize
    revert b1
    apply forall_byte
    decide +kernel
  unfold BasicHeader.new at h0 ⊢
  rw [hsize]
  exact congrArg₂ BasicHeader.mk h0 h1

/-- The bytes of the size after the basic header. -/
def sizeBytes (size : ℕ) : List UInt8 :=
  if size ≤ payloadSizeBasic then []
  else if size ≤ payloadSizeExtended then (toBytes 2 size).reverse
  else (toBytes 8 size).reverse

/-- The three ways to write a size. -/
theorem size_cases (size : ℕ) :
    size ≤ 125 ∧ basicValue size = UInt8.ofNat size ∧ sizeBytes size = [] ∨
    125 < size ∧ size ≤ 0xffff ∧ basicValue size = payloadSizeCode16bit ∧
      sizeBytes size = (toBytes 2 size).reverse ∨
    0xffff < size ∧ basicValue size = payloadSizeCode64bit ∧
      sizeBytes size = (toBytes 8 size).reverse := by
  unfold basicValue sizeBytes payloadSizeBasic payloadSizeExtended
  by_cases h1 : size ≤ 125
  · exact Or.inl ⟨h1, if_pos h1, if_pos h1⟩
  · rw [if_neg h1, if_neg h1]
    by_cases h2 : size ≤ 0xffff
    · exact Or.inr (Or.inl ⟨by omega, h2, if_pos h2, if_pos h2⟩)
    · exact Or.inr (Or.inr ⟨by omega, if_neg h2, if_neg h2⟩)

/-- A size in the basic header itself is none of the codes. -/
theorem ofNat_ne_code : ∀ n ≤ 125, UInt8.ofNat n ≠ payloadSizeCode16bit ∧
    UInt8.ofNat n ≠ payloadSizeCode64bit := by decide +kernel

/-- The key of a frame that is masked. -/
def keyBytes (key : Option MaskingKey) : List UInt8 := (key.map MaskingKey.c).getD []

theorem length_c (key : MaskingKey) : key.c.length = 4 := length_toBytes 4 key.toNat

theorem getMaskingKeyOffset_eq (h : BasicHeader) {size : ℕ}
    (hsize : getBasicSize h = basicValue size) :
    getMaskingKeyOffset h = (sizeBytes size).length := by
  rw [getMaskingKeyOffset, hsize]
  rcases size_cases size with ⟨h1, hv, hb⟩ | ⟨-, -, hv, hb⟩ | ⟨-, hv, hb⟩
  · obtain ⟨h16, h64⟩ := ofNat_ne_code size h1
    rw [hv, hb, if_neg h16, if_neg h64]
    rfl
  · rw [hv, hb, if_pos rfl, List.length_reverse, length_toBytes]
  · rw [hv, hb, if_neg (by decide), if_pos rfl, List.length_reverse, length_toBytes]

theorem getHeaderLen_eq (h : BasicHeader) {size : ℕ} {key : Option MaskingKey}
    (hsize : getBasicSize h = basicValue size) (hkey : getMasked h = key.isSome) :
    getHeaderLen h - basicHeaderLength = (sizeBytes size ++ keyBytes key).length := by
  have hlen : (keyBytes key).length = if getMasked h then 4 else 0 := by
    rw [hkey]
    cases key with
    | none => rfl
    | some key => exact length_c key
  rw [List.length_append, ← getMaskingKeyOffset_eq h hsize, hlen, getHeaderLen]
  omega

/-- The last bytes in network order are the lowest ones. -/
theorem drop_htonll (size : ℕ) {k : ℕ} (hk : k ≤ 8) :
    (toBytes 8 (htonll size)).drop (8 - k) = (toBytes k size).reverse := by
  have hsplit : toBytes 8 size = toBytes k size ++ toBytes (8 - k) (size / 256 ^ k) := by
    rw [← toBytes_add, Nat.add_sub_cancel' hk]
  have hdrop : (toBytes (8 - k) (size / 256 ^ k)).reverse.length = 8 - k := by
    rw [List.length_reverse, length_toBytes]
  rw [htonll, toBytes_swapBytes, hsplit, List.reverse_append]
  exact List.drop_left' hdrop

theorem copyPayload_eq (size : ℕ) :
    ExtendedHeader.copyPayload {} size =
      (⟨sizeBytes size ++ List.replicate (12 - (sizeBytes size).length) 0⟩,
        (sizeBytes size).length) := by
  have hcopy (source : List UInt8) : copyTo (List.replicate 12 0) 0 source =
      source ++ List.replicate (12 - source.length) 0 := by
    rw [copyTo, List.take_zero, List.nil_append, zero_add, List.drop_replicate]
  have hdrop : (toBytes 8 (htonll size)).drop (if size ≤ payloadSizeBasic then 8
      else if size ≤ payloadSizeExtended then 6 else 0) = sizeBytes size := by
    unfold sizeBytes
    split_ifs
    · exact drop_htonll size (by decide : 0 ≤ 8)
    · exact drop_htonll size (by decide : 2 ≤ 8)
    · exact drop_htonll size (by decide : 8 ≤ 8)
  have hlen : (sizeBytes size).length = 8 - if size ≤ payloadSizeBasic then 8
      else if size ≤ payloadSizeExtended then 6 else 0 := by
    rw [← hdrop, List.length_drop, length_toBytes]
  rw [ExtendedHeader.copyPayload, hdrop, ← hlen]
  exact congrArg (fun bytes => (ExtendedHeader.mk bytes, _)) (hcopy _)

theorem take_masked (size : ℕ) (key : MaskingKey) :
    (ExtendedHeader.masked size key).bytes.take (sizeBytes size ++ key.c).length =
      sizeBytes size ++ key.c := by
  unfold ExtendedHeader.masked
  rw [copyPayload_eq]
  dsimp only
  rw [copyTo, List.take_left, List.take_left]

theorem take_unmasked (size : ℕ) :
    (ExtendedHeader.unmasked size).bytes.take (sizeBytes size).length = sizeBytes size := by
  unfold ExtendedHeader.unmasked
  rw [copyPayload_eq]
  exact List.take_left

/-- The extended header read from the bytes after the basic one. -/
theorem getPayloadSize_eq (h : BasicHeader) {size : ℕ} (hsize : getBasicSize h = basicValue size)
    (hlt : size < 2 ^ 64) (rest : List UInt8) :
    getPayloadSize h ⟨sizeBytes size ++ rest⟩ = size := by
  have hread {k : ℕ} (hk : size < 256 ^ k) :
      swapBytes k (ofBytes (((toBytes k size).reverse ++ rest).take k)) = size := by
    have hlen : (toBytes k size).reverse.length = k := by rw [List.length_reverse, length_toBytes]
    rw [List.take_left' hlen, swapBytes_ofBytes hlen, List.reverse_reverse, ofBytes_toBytes hk]
  rw [getPayloadSize, hsize]
  rcases size_cases size with ⟨h1, hv, hb⟩ | ⟨h1, h2, hv, hb⟩ | ⟨h1, hv, hb⟩
  · have hnat : (UInt8.ofNat size).toNat = size := by
      rw [UInt8.toNat_ofNat']
      omega
    rw [hv, hnat]
    exact if_pos h1
  · rw [hv, hb, if_neg (by decide), if_pos rfl]
    exact hread (by omega)
  · rw [hv, hb, if_neg (by decide), if_neg (by decide)]
    exact hread (by omega)

theorem getMaskingKey_eq (h : BasicHeader) {size : ℕ} {key : Option MaskingKey}
    (hsize : getBasicSize h = basicValue size) (hkey : getMasked h = key.isSome)
    (rest : List UInt8) :
    getMaskingKey h ⟨sizeBytes size ++ keyBytes key ++ rest⟩ = key.getD 0 := by
  rw [getMaskingKey, hkey, getMaskingKeyOffset_eq h hsize]
  cases key with
  | none => rfl
  | some key =>
    have hread : ((sizeBytes size ++ keyBytes (some key) ++ rest).drop
        (sizeBytes size).length).take 4 = key.c := by
      rw [List.append_assoc, List.drop_left]
      exact List.take_left' (length_c key)
    rw [hread, MaskingKey.c, ofBytes_toBytes key.toNat_lt]
    exact UInt32.ofNat_toNat

/-- Whatever an extended header says in its minimal form, it is the one written for that. -/
theorem exists_size (h : BasicHeader) {bytes : List UInt8}
    (hlen : bytes.length = getMaskingKeyOffset h) (rest : List UInt8)
    (h16 : getBasicSize h = payloadSizeCode16bit →
      payloadSizeBasic < getPayloadSize h ⟨bytes ++ rest⟩)
    (h64 : getBasicSize h = payloadSizeCode64bit →
      payloadSizeExtended < getPayloadSize h ⟨bytes ++ rest⟩) :
    getPayloadSize h ⟨bytes ++ rest⟩ < 2 ^ 64 ∧
      getBasicSize h = basicValue (getPayloadSize h ⟨bytes ++ rest⟩) ∧
      sizeBytes (getPayloadSize h ⟨bytes ++ rest⟩) = bytes := by
  have hcodes : ∀ b : UInt8, (b &&& bhb1Payload).toNat ≤ payloadSizeBasic ∨
      b &&& bhb1Payload = payloadSizeCode16bit ∨ b &&& bhb1Payload = payloadSizeCode64bit :=
    forall_byte (by decide +kernel)
  have hlarge : payloadSizeBasic < payloadSizeCode16bit.toNat ∧
      payloadSizeBasic < payloadSizeCode64bit.toNat := by decide
  unfold getMaskingKeyOffset at hlen
  rcases hcodes h.b1 with hb | hb | hb
  · have hne16 : getBasicSize h ≠ payloadSizeCode16bit := by
      intro he
      rw [getBasicSize] at he
      rw [he] at hb
      omega
    have hne64 : getBasicSize h ≠ payloadSizeCode64bit := by
      intro he
      rw [getBasicSize] at he
      rw [he] at hb
      omega
    have hsize : getPayloadSize h ⟨bytes ++ rest⟩ = (getBasicSize h).toNat := if_pos hb
    have hv : (getBasicSize h).toNat < 2 ^ 64 := (getBasicSize h).toNat_lt.trans (by decide)
    rw [if_neg hne16, if_neg hne64] at hlen
    rw [hsize, List.eq_nil_of_length_eq_zero hlen]
    refine ⟨hv, ?_, if_pos hb⟩
    rw [basicValue, if_pos (show (getBasicSize h).toNat ≤ payloadSizeBasic from hb),
      UInt8.ofNat_toNat]
  · have hb' : getBasicSize h = payloadSizeCode16bit := hb
    rw [if_pos hb'] at hlen
    have hsize : getPayloadSize h ⟨bytes ++ rest⟩ = ofBytes bytes.reverse := by
      rw [getPayloadSize, hb', if_neg (by decide), if_pos rfl, getExtendedSize,
        List.take_left' hlen]
      exact swapBytes_ofBytes hlen
    have hlt := ofBytes_lt bytes.reverse
    rw [List.length_reverse, hlen] at hlt
    have hgt := h16 hb'
    rw [hsize] at hgt ⊢
    have hmin : ¬ ofBytes bytes.reverse ≤ payloadSizeBasic := by omega
    have hext : ofBytes bytes.reverse ≤ payloadSizeExtended := by
      unfold payloadSizeExtended
      omega
    refine ⟨by omega, ?_, ?_⟩
    · rw [basicValue, if_neg hmin, if_pos hext, hb']
    · rw [sizeBytes, if_neg hmin, if_pos hext,
        toBytes_of_length (by rw [List.length_reverse, hlen]), List.reverse_reverse]
  · have hb' : getBasicSize h = payloadSizeCode64bit := hb
    rw [hb', if_neg (by decide), if_pos rfl] at hlen
    have hsize : getPayloadSize h ⟨bytes ++ rest⟩ = ofBytes bytes.reverse := by
      rw [getPayloadSize, hb', if_neg (by decide), if_neg (by decide), getJumboSize,
        List.take_left' hlen]
      exact swapBytes_ofBytes hlen
    have hlt := ofBytes_lt bytes.reverse
    rw [List.length_reverse, hlen] at hlt
    have hgt := h64 hb'
    rw [hsize] at hgt ⊢
    have hext : ¬ ofBytes bytes.reverse ≤ payloadSizeExtended := by omega
    have hmin : ¬ ofBytes bytes.reverse ≤ payloadSizeBasic := by
      unfold payloadSizeBasic payloadSizeExtended at *
      omega
    refine ⟨by omega, ?_, ?_⟩
    · rw [basicValue, if_neg hmin, if_neg hext, hb']
    · rw [sizeBytes, if_neg hmin, if_neg hext,
        toBytes_of_length (by rw [List.length_reverse, hlen]), List.reverse_reverse]

/-! ### Masks -/

/-- The bytes of the key, over and over. -/
def keyStream (key : MaskingKey) (i : ℕ) : UInt8 := key.c.getD (i % 4) 0

theorem byteMaskFrom_eq (key : MaskingKey) (input : List UInt8) (i : ℕ) :
    byteMaskFrom key (i % 4) input = mask (keyStream key) i input := by
  induction input generalizing i with
  | nil => rfl
  | cons b bs ih =>
    have hnext : (i % 4 + 1) % 4 = (i + 1) % 4 := by omega
    rw [byteMaskFrom, hnext, ih, mask, keyStream]

theorem byteMask_eq (key : MaskingKey) (input : List UInt8) :
    byteMask input key = mask (keyStream key) 0 input := byteMaskFrom_eq key input 0

theorem mapIdx_eq_mask (key : ℕ → UInt8) (input : List UInt8) (i : ℕ) :
    input.mapIdx (fun j b => b ^^^ key (i + j)) = mask key i input := by
  induction input generalizing i with
  | nil => rfl
  | cons b bs ih =>
    rw [List.mapIdx_cons, mask, ← ih (i + 1)]
    congr 1
    congr 1
    funext j c
    rw [Nat.add_right_comm, Nat.add_assoc, Nat.add_comm j]

/-- The prepared key stands `n` bytes further in the stream of the key. -/
def Turned (key : MaskingKey) (n : ℕ) (preparedKey : UInt64) : Prop :=
  toBytes 8 preparedKey.toNat = (key.c ++ key.c).rotate n

theorem turned_prepare (key : MaskingKey) : Turned key 0 (prepareMaskingKey key) := by
  have hkey : key.toNat < 256 ^ 4 := key.toNat_lt
  have hshift : (prepareMaskingKey key).toNat = key.toNat <<< 32 % 2 ^ 64 ||| key.toNat := by
    rw [prepareMaskingKey, UInt64.toNat_or, UInt64.toNat_shiftLeft, UInt32.toNat_toUInt64]
    rfl
  have hsum : key.toNat <<< 32 % 2 ^ 64 = key.toNat <<< 32 := by
    rw [Nat.shiftLeft_eq, Nat.mod_eq_of_lt (by omega)]
  have hnat : (prepareMaskingKey key).toNat = key.toNat + 256 ^ 4 * key.toNat := by
    rw [hshift, hsum, ← Nat.shiftLeft_add_eq_or_of_lt hkey, Nat.shiftLeft_eq]
    ring
  rw [Turned, hnat, List.rotate_zero]
  exact toBytes_add_of_lt (k := 4) hkey

theorem toBytes_circshift (p : UInt64) {offset : ℕ} (h : offset < 8) :
    toBytes 8 (circshiftPreparedKey p offset).toNat = (toBytes 8 p.toNat).rotate offset := by
  have hp : p.toNat < 2 ^ 64 := p.toNat_lt
  have hright : (p >>> UInt64.ofNat (offset * 8)).toNat = p.toNat / 256 ^ offset := by
    have hs : (UInt64.ofNat (offset * 8)).toNat % 64 = offset * 8 := by
      rw [UInt64.toNat_ofNat']
      omega
    rw [UInt64.toNat_shiftRight, hs, Nat.shiftRight_eq_div_pow, Nat.mul_comm, Nat.pow_mul]
  rcases Nat.eq_zero_or_pos offset with rfl | hpos
  · have hnone : circshiftPreparedKey p 0 = p := by
      rw [← UInt64.toNat_inj, circshiftPreparedKey, UInt64.toNat_or, hright, UInt64.toNat_shiftLeft]
      change p.toNat / 1 ||| p.toNat <<< 0 % 2 ^ 64 = p.toNat
      rw [Nat.div_one, Nat.shiftLeft_zero, Nat.mod_eq_of_lt hp, Nat.or_self]
    rw [hnone, List.rotate_zero]
  · have hleft : (p <<< UInt64.ofNat ((8 - offset) * 8)).toNat =
        (p.toNat % 256 ^ offset) <<< (8 * (8 - offset)) := by
      have hs : (UInt64.ofNat ((8 - offset) * 8)).toNat % 64 = 8 * (8 - offset) := by
        rw [UInt64.toNat_ofNat']
        omega
      have hword : 2 ^ 64 = 256 ^ offset * 2 ^ (8 * (8 - offset)) := by
        rw [show (256 : ℕ) = 2 ^ 8 from rfl, ← Nat.pow_mul, ← Nat.pow_add]
        congr 1
        omega
      rw [UInt64.toNat_shiftLeft, hs, Nat.shiftLeft_eq, Nat.shiftLeft_eq, hword,
        Nat.mul_mod_mul_right]
    have hlow : p.toNat / 256 ^ offset < 256 ^ (8 - offset) := by
      rw [Nat.div_lt_iff_lt_mul (Nat.pow_pos (by decide)), ← Nat.pow_add,
        Nat.sub_add_cancel h.le]
      exact hp
    have hlow' : p.toNat / 256 ^ offset < 2 ^ (8 * (8 - offset)) := by
      rwa [Nat.pow_mul]
    have hsum : (circshiftPreparedKey p offset).toNat =
        p.toNat / 256 ^ offset + 256 ^ (8 - offset) * (p.toNat % 256 ^ offset) := by
      rw [circshiftPreparedKey, UInt64.toNat_or, hright, hleft, Nat.or_comm,
        ← Nat.shiftLeft_add_eq_or_of_lt hlow', Nat.shiftLeft_eq, Nat.pow_mul]
      ring
    have hfront : toBytes 8 p.toNat =
        toBytes offset p.toNat ++ toBytes (8 - offset) (p.toNat / 256 ^ offset) := by
      rw [← toBytes_add, Nat.add_sub_cancel' h.le]
    have hback : toBytes 8 (circshiftPreparedKey p offset).toNat =
        toBytes (8 - offset) (p.toNat / 256 ^ offset) ++ toBytes offset p.toNat := by
      rw [hsum, ← toBytes_mod offset p.toNat, ← toBytes_add_of_lt hlow,
        Nat.sub_add_cancel h.le]
    have hrotate := List.rotate_append_length_eq (toBytes offset p.toNat)
      (toBytes (8 - offset) (p.toNat / 256 ^ offset))
    rw [length_toBytes] at hrotate
    rw [hback, hfront, hrotate]

theorem rotate_key (key : MaskingKey) (n : ℕ) :
    (key.c ++ key.c).rotate (n % 4) = (key.c ++ key.c).rotate n := by
  have hfour : (key.c ++ key.c).rotate 4 = key.c ++ key.c := by
    rw [← length_c key]
    exact List.rotate_append_length_eq _ _
  have hmul (k : ℕ) : (key.c ++ key.c).rotate (4 * k) = key.c ++ key.c := by
    induction k with
    | zero => rfl
    | succ k ih => rw [Nat.mul_succ, ← List.rotate_rotate, ih, hfour]
  conv_rhs => rw [← Nat.div_add_mod n 4, ← List.rotate_rotate, hmul]

/-- The key returned stands where the mask stopped. -/
theorem Turned.circshift {key : MaskingKey} {n : ℕ} {p : UInt64} (h : Turned key n p) (m : ℕ) :
    Turned key (n + m) (circshiftPreparedKey p (m % 4)) := by
  rw [Turned, toBytes_circshift p (by omega), h, List.rotate_rotate, ← rotate_key,
    ← rotate_key key (n + m)]
  congr 1
  omega

theorem getD_twice (key : MaskingKey) {j : ℕ} (hj : j < 8) :
    (key.c ++ key.c).getD j 0 = key.c.getD (j % 4) 0 := by
  have hc := length_c key
  rcases Nat.lt_or_ge j 4 with h | h
  · rw [List.getD_append _ _ _ _ (by omega), Nat.mod_eq_of_lt h]
  · rw [List.getD_append_right _ _ _ _ (by omega), hc]
    congr 1
    omega

theorem Turned.keyStream_eq {key : MaskingKey} {n : ℕ} {p : UInt64} (h : Turned key n p) (i : ℕ) :
    (MaskingKey.c p.toUInt32).getD (i % 4) 0 = keyStream key (n + i) := by
  have hlow : MaskingKey.c p.toUInt32 = (toBytes 8 p.toNat).take 4 := by
    have hsplit : toBytes 8 p.toNat = toBytes 4 p.toNat ++ toBytes 4 (p.toNat / 256 ^ 4) :=
      toBytes_add 4 4 p.toNat
    rw [MaskingKey.c, UInt64.toNat_toUInt32, hsplit, List.take_left' (length_toBytes 4 _)]
    exact toBytes_mod 4 p.toNat
  have hlen : (key.c ++ key.c).length = 8 := by rw [List.length_append, length_c]
  have hget : ((key.c ++ key.c).rotate n)[i % 4]? = (key.c ++ key.c)[(i % 4 + n) % 8]? := by
    rw [List.getElem?_rotate (by omega), hlen]
  have hstream := getD_twice key (j := (i % 4 + n) % 8) (by omega)
  rw [List.getD_eq_getElem?_getD, ← hget, ← h] at hstream
  rw [hlow, List.getD_eq_getElem?_getD, List.getElem?_take_of_lt (by omega), hstream, keyStream]
  congr 1
  omega

/-- Masking a part goes on where the part before it stopped. -/
theorem Turned.byteMaskCirc {key : MaskingKey} {n : ℕ} {p : UInt64} (h : Turned key n p)
    (input : List UInt8) :
    (byteMaskCirc input p).1 = mask (keyStream key) n input ∧
      Turned key (n + input.length) (byteMaskCirc input p).2 := by
  refine ⟨?_, h.circshift input.length⟩
  rw [← mapIdx_eq_mask]
  exact congrArg input.mapIdx (funext fun i => funext fun b => by rw [h.keyStream_eq])

theorem Turned.unique {key : MaskingKey} {n : ℕ} {p q : UInt64} (hp : Turned key n p)
    (hq : Turned key n q) : p = q := by
  have hbytes := congrArg ofBytes (hp.trans hq.symm)
  rw [ofBytes_toBytes (k := 8) p.toNat_lt, ofBytes_toBytes (k := 8) q.toNat_lt] at hbytes
  exact UInt64.toNat_inj.mp hbytes

theorem Turned.byteMaskCirc_append {key : MaskingKey} {n : ℕ} {p : UInt64} (h : Turned key n p)
    (as bs : List UInt8) : Websocket.byteMaskCirc (as ++ bs) p =
      ((Websocket.byteMaskCirc as p).1 ++
          (Websocket.byteMaskCirc bs (Websocket.byteMaskCirc as p).2).1,
        (Websocket.byteMaskCirc bs (Websocket.byteMaskCirc as p).2).2) := by
  obtain ⟨h1, hkey1⟩ := h.byteMaskCirc as
  obtain ⟨h2, hkey2⟩ := hkey1.byteMaskCirc bs
  obtain ⟨h3, hkey3⟩ := h.byteMaskCirc (as ++ bs)
  rw [List.length_append, ← Nat.add_assoc] at hkey3
  refine Prod.ext ?_ (hkey3.unique hkey2)
  rw [h1, h2, h3, mask_append]

end PeerApi.Websocket
