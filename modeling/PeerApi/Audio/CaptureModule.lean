import Mathlib.Data.List.Basic
import Mathlib.Order.MinMax

/-! `FakeAudioCaptureModule`, the audio device that a control gives to its peer
connection factory. It pulls and pushes a frame every 10 ms on a thread of its own, which
exists only while something is played or recorded. The frames are driven by messages of
that thread: one that starts the processing, and one that each frame posts for the next.

The calls of the interface come from one thread. Such a call sets its flag and then
starts or stops the processing, and messages may be dispatched in between, so these are
two steps here. A posted message has the time at which it is due; the thread dispatches
any message that is due. -/

namespace PeerApi.Audio

/-- `kTimePerFrameMs`. -/
def timePerFrameMs : ℤ := 10

/-- `kHighSampleValue`. -/
def highSampleValue : UInt16 := 10000

/-- `kNumberSamples`. -/
def numberSamples : ℕ := 440

/-- `kMaxVolume`. -/
def maxVolume : UInt32 := 14392

/-- `kAdmMaxIdleTimeProcess`. -/
def admMaxIdleTimeProcess : ℤ := 1000

inductive MessageId where
  | startProcess
  | runProcess
  deriving DecidableEq, Repr

structure Message where
  due : ℤ
  messageId : MessageId
  deriving DecidableEq, Repr

/-- `frames`, `pulled` and `pushed` are not in the source: the times of the frames since
the processing started, and what the callback was asked for and given. `update` is the
argument of the `UpdateProcessing` that the call in progress is about to make. -/
structure CaptureModule where
  lastProcessTimeMs : ℤ
  /-- `audio_callback_` is set. -/
  audioCallback : Bool
  recording : Bool
  playing : Bool
  playIsInitialized : Bool
  recIsInitialized : Bool
  currentMicLevel : UInt32
  started : Bool
  nextFrameTime : ℤ
  /-- `process_thread_`, with its messages. -/
  processThread : Option (List Message)
  recBuffer : List UInt16
  sendBuffer : List UInt16
  framesReceived : ℕ
  now : ℤ
  update : Option Bool
  fault : Bool
  frames : List ℤ
  pulled : List (List UInt16)
  pushed : List (List UInt16 × UInt32)

/-- What happens outside the module while a frame is processed: how long the calls take,
the samples pulled, and the microphone level that comes back. -/
structure FrameIo where
  elapsed : ℕ
  samples : List UInt16
  micLevel : UInt32

namespace CaptureModule

/-- The constructor and `Initialize`; `rec_buffer_` is reset before it is used. -/
def create (now : ℤ) : CaptureModule where
  lastProcessTimeMs := now
  audioCallback := false
  recording := false
  playing := false
  playIsInitialized := false
  recIsInitialized := false
  currentMicLevel := maxVolume
  started := false
  nextFrameTime := 0
  processThread := none
  recBuffer := List.replicate numberSamples 0
  sendBuffer := List.replicate numberSamples highSampleValue
  framesReceived := 0
  now := now
  update := none
  fault := false
  frames := []
  pulled := []
  pushed := []

/-! ### The interface -/

def timeUntilNextProcess (m : CaptureModule) : ℤ :=
  if m.now < m.lastProcessTimeMs then 0
  else if admMaxIdleTimeProcess < m.now - m.lastProcessTimeMs then 0
  else admMaxIdleTimeProcess - (m.now - m.lastProcessTimeMs)

def process (m : CaptureModule) : CaptureModule := { m with lastProcessTimeMs := m.now }

def registerAudioCallback (set : Bool) (m : CaptureModule) : CaptureModule :=
  { m with audioCallback := set }

def initPlayout (m : CaptureModule) : CaptureModule := { m with playIsInitialized := true }

def initRecording (m : CaptureModule) : CaptureModule := { m with recIsInitialized := true }

def shouldStartProcessing (m : CaptureModule) : Bool := m.recording || m.playing

/-- The first half of `StartPlayout`; without `InitPlayout` it returns -1. -/
def startPlayout (m : CaptureModule) : CaptureModule :=
  if m.playIsInitialized then { m with playing := true, update := some true } else m

def stopPlayout (m : CaptureModule) : CaptureModule :=
  let m := { m with playing := false }
  { m with update := some m.shouldStartProcessing }

def startRecording (m : CaptureModule) : CaptureModule :=
  if m.recIsInitialized then { m with recording := true, update := some true } else m

def stopRecording (m : CaptureModule) : CaptureModule :=
  let m := { m with recording := false }
  { m with update := some m.shouldStartProcessing }

def setMicrophoneVolume (volume : UInt32) (m : CaptureModule) : CaptureModule :=
  { m with currentMicLevel := volume }

/-- Stopping the thread waits for the message it is at, and drops the others. -/
def updateProcessing (start : Bool) (m : CaptureModule) : CaptureModule :=
  if start then
    { m with processThread := some (m.processThread.getD [] ++ [⟨m.now, .startProcess⟩]) }
  else { m with processThread := none, started := false, frames := [] }

/-! ### The process thread -/

def checkRecBuffer (value : UInt16) (m : CaptureModule) : Bool := m.recBuffer.any (value ≤ ·)

/-- The samples are pulled into the cleared buffer; their number is checked. -/
def receiveFrameP (io : FrameIo) (m : CaptureModule) : CaptureModule :=
  if m.audioCallback then
    if io.samples.length = numberSamples then
      let m := { m with recBuffer := io.samples, pulled := m.pulled ++ [io.samples] }
      if m.checkRecBuffer highSampleValue then { m with framesReceived := m.framesReceived + 1 }
      else m
    else { m with fault := true }
  else m

def sendFrameP (io : FrameIo) (m : CaptureModule) : CaptureModule :=
  if m.audioCallback then
    { m with pushed := m.pushed ++ [(m.sendBuffer, m.currentMicLevel)] }.setMicrophoneVolume
      io.micLevel
  else m

/-- `PostDelayed`. -/
def postDelayed (delay : ℤ) (id : MessageId) (m : CaptureModule) : CaptureModule :=
  { m with processThread := m.processThread.map (· ++ [⟨m.now + delay, id⟩]) }

/-- The part of `ProcessFrameP` up to the frame itself. -/
def beginFrame (m : CaptureModule) : CaptureModule :=
  if m.started then m else { m with nextFrameTime := m.now, started := true }

/-- The frame: receive and send, as far as they are enabled. -/
def exchangeFrame (io : FrameIo) (m : CaptureModule) : CaptureModule :=
  let m := if m.playing then m.receiveFrameP io else m
  if m.recording then m.sendFrameP io else m

/-- The frame is logged and takes its time. -/
def passFrame (io : FrameIo) (m : CaptureModule) : CaptureModule :=
  { m with frames := m.frames ++ [m.now], now := m.now + io.elapsed }

/-- The part of `ProcessFrameP` after the frame. -/
def scheduleFrame (m : CaptureModule) : CaptureModule :=
  let m := { m with nextFrameTime := m.nextFrameTime + timePerFrameMs }
  m.postDelayed (if m.now < m.nextFrameTime then m.nextFrameTime - m.now else 0) .runProcess

def processFrameP (io : FrameIo) (m : CaptureModule) : CaptureModule :=
  ((m.beginFrame.exchangeFrame io).passFrame io).scheduleFrame

def startProcessP (io : FrameIo) (m : CaptureModule) : CaptureModule :=
  if m.started then m else m.processFrameP io

def onMessage (io : FrameIo) (m : CaptureModule) : MessageId → CaptureModule
  | .startProcess => m.startProcessP io
  | .runProcess => m.processFrameP io

/-! ### Steps -/

inductive Call where
  | initPlayout
  | initRecording
  | startPlayout
  | stopPlayout
  | startRecording
  | stopRecording
  | registerAudioCallback (set : Bool)
  | setMicrophoneVolume (volume : UInt32)
  | process

def call (m : CaptureModule) : Call → CaptureModule
  | .initPlayout => m.initPlayout
  | .initRecording => m.initRecording
  | .startPlayout => m.startPlayout
  | .stopPlayout => m.stopPlayout
  | .startRecording => m.startRecording
  | .stopRecording => m.stopRecording
  | .registerAudioCallback set => m.registerAudioCallback set
  | .setMicrophoneVolume volume => m.setMicrophoneVolume volume
  | .process => m.process

inductive Action where
  /-- A call of the interface, up to its `UpdateProcessing`. -/
  | call (c : Call)
  /-- The call in progress starts or stops the processing, and returns. -/
  | updateProcessing
  | tick (elapsed : ℕ)
  /-- The process thread takes the message at the given place of its queue. -/
  | dispatch (i : ℕ) (io : FrameIo)

/-- The message at the given place, if the thread may dispatch it. -/
def ready (m : CaptureModule) (i : ℕ) : Option (Message × List Message) :=
  m.processThread.bind fun queue =>
    match queue[i]? with
    | some msg => if msg.due ≤ m.now then some (msg, queue.eraseIdx i) else none
    | none => none

/-- Nothing happens after a failed check. -/
def step (m : CaptureModule) (a : Action) : CaptureModule :=
  if m.fault then m
  else
    match a with
    | .call c => if m.update = none then m.call c else m
    | .updateProcessing =>
      match m.update with
      | none => m
      | some start => { m.updateProcessing start with update := none }
    | .tick elapsed => { m with now := m.now + elapsed }
    | .dispatch i io =>
      match m.ready i with
      | none => m
      | some (msg, queue) => { m with processThread := some queue }.onMessage io msg.messageId

end CaptureModule

end PeerApi.Audio
