import PeerApi.Common

/-! A data channel and the `PeerDataChannelObserver` attached to it. The channel's
own state and its buffered amount belong to WebRTC and move only forward through
the four states; the observer keeps the state it last saw. -/

namespace PeerApi

/-- `webrtc::DataChannelInterface::DataState`. -/
inductive DataState where
  | connecting
  | open
  | closing
  | closed
  deriving DecidableEq, Repr

def DataState.rank : DataState → ℕ
  | .connecting => 0
  | .open => 1
  | .closing => 2
  | .closed => 3

/-- What a send came to. -/
structure Sending where
  result : Bool
  /-- The answer of `channel_->Send`, where it was called. -/
  answer : Option Bool
  deriving DecidableEq, Repr

structure DataChannel where
  /-- `channel_->state()`. -/
  live : DataState
  /-- `state_`. -/
  state : DataState
  /-- `channel_->buffered_amount()`. -/
  bufferedAmount : ℕ
  /-- The channel has reported `kOpen` through `OnStateChange`. -/
  reportedOpen : Bool
  /-- A channel that it replaced had, and none of them has closed before. -/
  replacedOpen : Bool
  deriving DecidableEq, Repr

namespace DataChannel

/-- The constructor of the observer on a channel in the given state. -/
def observe (live : DataState) (bufferedAmount : ℕ) : DataChannel :=
  ⟨live, live, bufferedAmount, false, false⟩

/-- WebRTC moves the channel to a later state. -/
def advance (st : DataState) (ch : DataChannel) : DataChannel :=
  if ch.live.rank ≤ st.rank then { ch with live := st } else ch

/-- `OnStateChange` up to the signal it emits. -/
def onStateChange (ch : DataChannel) : DataChannel :=
  { ch with state := ch.live, reportedOpen := ch.reportedOpen || ch.live = .open }

def maxBufferSize : ℕ := 16 * 1024 * 1024

/-- `Send`, where `accepted` is what `channel_->Send` answers. -/
def send (accepted : Bool) (ch : DataChannel) : Sending :=
  if ch.bufferedAmount ≥ maxBufferSize then ⟨false, none⟩ else ⟨accepted, some accepted⟩

/-- `SyncSend`, where `drained` is the result of waiting for an empty buffer. -/
def syncSend (accepted drained : Bool) (_ : DataChannel) : Sending :=
  if accepted then ⟨drained, some true⟩ else ⟨false, some false⟩

/-- This channel or one that it replaced has reported `kOpen`, and none of them has
closed. -/
def cameOpen (ch : DataChannel) : Bool :=
  ch.live.rank ≤ 1 && (ch.reportedOpen || ch.replacedOpen)

/-- WebRTC brings no channel back. -/
theorem cameOpen_advance {ch : DataChannel} {st : DataState}
    (h : (ch.advance st).cameOpen = true) : ch.cameOpen = true := by
  unfold advance at h
  split_ifs at h with hle
  · simp only [cameOpen, Bool.and_eq_true, decide_eq_true_eq] at h ⊢
    exact ⟨hle.trans h.1, h.2⟩
  · exact h

def isOpen (ch : DataChannel) : Bool := ch.state = .open

def isWritable (ch : DataChannel) : Bool :=
  if ch.isOpen then ch.bufferedAmount = 0 else false

end DataChannel

end PeerApi
