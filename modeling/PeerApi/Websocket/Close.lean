import PeerApi.Websocket.Messages

/-! Why a connection is closed. A close frame carries a code in network order and a reason,
or nothing at all, and an end that is told neither has the code for no status. What an end
sends is checked against the codes that may stand on the wire, and so is what it receives,
but the reason is only known to be a text where it is received. -/

namespace PeerApi.Websocket

open Base

/-- `close::status::value`. -/
abbrev CloseStatus := UInt16

namespace CloseStatus

def blank : CloseStatus := 0
def normal : CloseStatus := 1000
def protocolError : CloseStatus := 1002
def noStatus : CloseStatus := 1005
def abnormalClose : CloseStatus := 1006
def invalidPayload : CloseStatus := 1007
def policyViolation : CloseStatus := 1008
def messageTooBig : CloseStatus := 1009
def internalEndpointError : CloseStatus := 1011
def tlsHandshake : CloseStatus := 1015
def rsvStart : CloseStatus := 1016
def rsvEnd : CloseStatus := 2999
def invalidLow : CloseStatus := 999
def invalidHigh : CloseStatus := 5000

def reserved (code : CloseStatus) : Bool :=
  (code ≥ rsvStart && code ≤ rsvEnd) || code = 1004 || code = 1014

def invalid (code : CloseStatus) : Bool :=
  code ≤ invalidLow || code ≥ invalidHigh || code = noStatus || code = abnormalClose ||
    code = tlsHandshake

/-- The errors after which an end does not wait for an acknowledgement. -/
def terminal (code : CloseStatus) : Bool :=
  code = protocolError || code = invalidPayload || code = policyViolation ||
    code = messageTooBig || code = internalEndpointError

end CloseStatus

/-! ### Errors -/

/-- The errors of the library itself. -/
inductive LibraryError where
  | invalidState
  | badCloseCode
  | invalidCloseCode
  | reservedCloseCode
  | invalidUtf8
  | httpConnectionEnded
  | closeHandshakeTimeout
  deriving DecidableEq, Repr

inductive TransportError where
  | general
  | passThrough
  | invalidNumBytes
  | operationAborted
  | operationNotSupported
  | eof
  | tlsShortRead
  | timeout
  | actionAfterShutdown
  | tlsError
  deriving DecidableEq, Repr

/-- An error code, with its category. -/
inductive ErrorCode where
  | processor (ec : ProcessorError)
  | library (ec : LibraryError)
  | transport (ec : TransportError)
  deriving DecidableEq, Repr

def ProcessorError.message : ProcessorError → String
  | general => "Generic processor error"
  | messageTooBig => "A message was too large"
  | invalidPayload => "A payload contained invalid data"
  | invalidOpcode => "invalid opcode"
  | controlTooBig => "Control messages are limited to fewer than 125 characters"
  | invalidRsvBit => "Invalid use of reserved bits"
  | fragmentedControl => "Control messages cannot be fragmented"
  | invalidContinuation => "Invalid message continuation"
  | maskingRequired => "Clients may not send unmasked frames"
  | maskingForbidden => "Servers may not send masked frames"
  | nonMinimalEncoding => "Payload length was not minimally encoded"
  | invalidUtf8 => "Invalid UTF8 encoding"
  | reservedCloseCode => "Reserved close code used"
  | invalidCloseCode => "Invalid close code used"
  | reasonRequiresCode => "Using a close reason requires a valid close code"

def LibraryError.message : LibraryError → String
  | invalidState => "invalid state"
  | badCloseCode => "Unable to extract close code"
  | invalidCloseCode => "Extracted close code is in an invalid range"
  | reservedCloseCode => "Extracted close code is in a reserved range"
  | invalidUtf8 => "Invalid UTF-8"
  | httpConnectionEnded => "HTTP connection ended"
  | closeHandshakeTimeout => "The closing handshake timed out"

def TransportError.message : TransportError → String
  | general => "Generic transport policy error"
  | passThrough => "Underlying Transport Error"
  | invalidNumBytes => "async_read_at_least call requested more bytes than buffer can store"
  | operationAborted => "The operation was aborted"
  | operationNotSupported => "The operation is not supported by this transport"
  | eof => "End of File"
  | tlsShortRead => "TLS Short Read"
  | timeout => "Timer Expired"
  | actionAfterShutdown => "A transport action was requested after shutdown"
  | tlsError => "Generic TLS related error"

def ErrorCode.message : ErrorCode → List UInt8
  | processor ec => ec.message.toUTF8.toList
  | library ec => ec.message.toUTF8.toList
  | transport ec => ec.message.toUTF8.toList

/-- `to_ws`. -/
def toWs : ErrorCode → CloseStatus
  | .processor .controlTooBig | .processor .invalidOpcode | .processor .invalidRsvBit
  | .processor .fragmentedControl | .processor .invalidContinuation
  | .processor .maskingRequired | .processor .maskingForbidden
  | .processor .reservedCloseCode | .processor .invalidCloseCode => CloseStatus.protocolError
  | .processor .invalidPayload | .processor .invalidUtf8 => CloseStatus.invalidPayload
  | .processor .messageTooBig => CloseStatus.messageTooBig
  | .processor _ => CloseStatus.internalEndpointError
  | .library _ | .transport _ => CloseStatus.blank

/-! ### The payload -/

def htons (n : ℕ) : ℕ := swapBytes 2 n

/-- The code, and what is wrong with it. -/
def extractCode (payload : List UInt8) : CloseStatus × Option LibraryError :=
  match payload with
  | [] => (CloseStatus.noStatus, none)
  | [_] => (CloseStatus.protocolError, some .badCloseCode)
  | b0 :: b1 :: _ =>
    let code : CloseStatus := UInt16.ofNat (ntohs (ofBytes [b0, b1]))
    let ec := if code.invalid then some .invalidCloseCode else none
    let ec := if code.reserved then some .reservedCloseCode else ec
    (code, ec)

def extractReason (payload : List UInt8) : List UInt8 × Option LibraryError :=
  let reason := payload.drop 2
  (reason, if !validate reason then some .invalidUtf8 else none)

/-- The payload of a close frame. -/
def closePayload (code : CloseStatus) (reason : List UInt8) : List UInt8 :=
  if code ≠ CloseStatus.noStatus then toBytes 2 (htons code.toNat) ++ reason else []

def Hybi13.prepareClose (p : Hybi13) (key : MaskingKey) (code : CloseStatus)
    (reason : List UInt8) : Except ProcessorError Message :=
  if code.reserved then .error .reservedCloseCode
  else if code.invalid && code ≠ CloseStatus.noStatus then .error .invalidCloseCode
  else if code = CloseStatus.noStatus && reason.length > 0 then .error .reasonRequiresCode
  else if reason.length > payloadSizeBasic - 2 then .error .controlTooBig
  else p.prepareControl key .close (closePayload code reason)

/-- A code and a reason that may be sent. -/
structure CanClose (code : CloseStatus) (reason : List UInt8) : Prop where
  reserved : code.reserved = false
  valid : code.invalid = false ∨ code = CloseStatus.noStatus
  empty : code = CloseStatus.noStatus → reason = []
  size : reason.length ≤ payloadSizeBasic - 2

theorem prepareClose_ok {p : Hybi13} {key : MaskingKey} {code : CloseStatus}
    {reason : List UInt8} {out : Message} (h : p.prepareClose key code reason = .ok out) :
    CanClose code reason ∧ p.prepareControl key .close (closePayload code reason) = .ok out := by
  unfold Hybi13.prepareClose at h
  by_cases h1 : code.reserved
  · rw [if_pos h1] at h
    cases h
  rw [if_neg h1] at h
  by_cases h2 : (code.invalid && code ≠ CloseStatus.noStatus) = true
  · rw [if_pos h2] at h
    cases h
  rw [if_neg h2] at h
  by_cases h3 : (code = CloseStatus.noStatus && reason.length > 0) = true
  · rw [if_pos h3] at h
    cases h
  rw [if_neg h3] at h
  by_cases h4 : reason.length > payloadSizeBasic - 2
  · rw [if_pos h4] at h
    cases h
  rw [if_neg h4] at h
  refine ⟨⟨by simpa using h1, ?_, fun hn => ?_, Nat.le_of_not_lt h4⟩, h⟩
  · cases hi : code.invalid with
    | false => exact Or.inl rfl
    | true =>
      right
      simpa [hi] using h2
  · simpa [hn] using h3

/-- What a close frame says when it is received. -/
theorem extractCode_closePayload {code : CloseStatus} {reason : List UInt8}
    (h : CanClose code reason) : extractCode (closePayload code reason) = (code, none) := by
  by_cases hn : code = CloseStatus.noStatus
  · rw [closePayload, if_neg (not_not_intro hn), hn]
    rfl
  · have hi : code.invalid = false := h.valid.resolve_right hn
    have hlen : (toBytes 2 (htons code.toNat)).length = 2 := length_toBytes ..
    obtain ⟨b0, b1, hb⟩ := List.length_eq_two.mp hlen
    have hcode : UInt16.ofNat (ntohs (ofBytes [b0, b1])) = code := by
      rw [← hb, ntohs, swapBytes_ofBytes hlen, htons, toBytes_swapBytes, List.reverse_reverse,
        ofBytes_toBytes code.toNat_lt, UInt16.ofNat_toNat]
    rw [closePayload, if_pos hn, hb]
    simp only [List.cons_append, extractCode, hcode, hi, h.reserved, Bool.false_eq_true, if_false]

theorem extractReason_closePayload {code : CloseStatus} {reason : List UInt8}
    (h : CanClose code reason) : (extractReason (closePayload code reason)).1 = reason ∧
      ((extractReason (closePayload code reason)).2 = none ↔ IsText reason) := by
  have hdrop : (closePayload code reason).drop 2 = reason := by
    unfold closePayload
    split_ifs with hn
    · exact List.drop_left' (length_toBytes ..)
    · exact (h.empty (not_not.mp hn)).symm
  unfold extractReason
  rw [hdrop]
  refine ⟨rfl, ?_⟩
  rw [← foldl_advance_iff, ← validate_eq_true]
  by_cases hv : validate reason = true <;> simp [hv]

end PeerApi.Websocket
