import PeerApi.Session.CloseAll

/-! The replies of the server to the three requests of a session. `OnChannelCreate`
and `OnChannelJoin` report every reply that is not a success, malformed or refused,
as a close with a signal error. `OnOpen` has the same tests and only logs them: the
user of a peer whose session is refused hears nothing. -/

namespace PeerApi.World

open Base

inductive Reply where
  | openSession
  | channelCreate
  | channelJoin
  deriving DecidableEq, Repr

def Reply.command : Reply → String
  | .openSession => "open"
  | .channelCreate => "channelcreate"
  | .channelJoin => "channeljoin"

/-- The string that a success carries besides its result. -/
def Reply.field : Reply → String
  | .openSession => "session_id"
  | .channelCreate => "name"
  | .channelJoin => "name"

/-- A well-formed success. -/
def Succeeds (env : Env) (reply : Reply) (data : Json) : Prop :=
  env.rtc.getBoolFromJsonObject data "result" = some true ∧
    (env.rtc.getStringFromJsonObject data reply.field).isSome = true

/-- A call of `OnClose` with a signal error. -/
def isSignalError : Obs → Bool
  | .observer _ _ (.close _ code _) => code = .signalError
  | _ => false

/-- The calls of `OnClose` with a signal error that `OnCommandReceived` makes. -/
def signalErrors (env : Env) (c : ℕ) (message : Json) (origin : Option ℕ) (w : World) : ℕ :=
  ((w.onCommandReceived env c message origin).obs.drop w.obs.length).countP isSignalError

variable {env : Env} {w : World} {c : ℕ}

theorem countP_isSignalError (os : List Obs) :
    os.countP isSignalError = (os.filter Obs.isObserver).countP isSignalError := by
  rw [List.countP_filter]
  congr 1
  funext o
  cases o <;> simp [isSignalError, Obs.isObserver]

/-- The handlers of the user make no call on the observer, so a refusal is one
report. -/
theorem observe_signalErrors (running : w.fault = none) (observed : (w.controls c).observer = true)
    (id desc : String) :
    ((w.observe env c none (.close id .signalError desc)).obs.drop w.obs.length).countP
      isSignalError = 1 := by
  have hobs := observe_observers env none (.close id .signalError desc) running observed
  obtain ⟨os, hos⟩ := observe_obs env none (.close id .signalError desc) running observed
  rw [← hos, List.append_assoc, List.drop_left, countP_isSignalError]
  rw [← hos, List.append_assoc, List.filter_append] at hobs
  rw [List.append_cancel_left hobs]
  rfl

theorem refusedId_of_refused {reply : Reply} (hr : reply.field = "name") {data : Json}
    (refused : ¬ Succeeds env reply data) (missing : String) :
    ∃ id, refusedId env data missing = some id := by
  unfold Succeeds at refused
  rw [hr] at refused
  unfold refusedId
  cases hb : env.rtc.getBoolFromJsonObject data "result" with
  | none => exact ⟨_, rfl⟩
  | some result =>
    cases hn : env.rtc.getStringFromJsonObject data "name" with
    | none => exact ⟨_, rfl⟩
    | some name =>
      cases result with
      | false => exact ⟨_, rfl⟩
      | true => simp [hb, hn] at refused

theorem onOpen_refused {data : Json} (refused : ¬ Succeeds env .openSession data) :
    w.onOpen env c data = w := by
  unfold Succeeds Reply.field at refused
  unfold onOpen
  cases hb : env.rtc.getBoolFromJsonObject data "result" with
  | none => rfl
  | some result =>
    cases result with
    | false => rfl
    | true =>
      cases hs : env.rtc.getStringFromJsonObject data "session_id" with
      | none => rfl
      | some sessionId => simp [hb, hs] at refused

/-- In every state with an observer: a reply that is not a well-formed success is
reported exactly once, unless it is the reply to the opening of the session. -/
theorem refusal_reported_iff (env : Env) (w : World) (c : ℕ) (running : w.fault = none)
    (observed : (w.controls c).observer = true) (reply : Reply) (message : Json)
    {data : Json} {peerId : String}
    (received : parseCommand env message = some (reply.command, peerId, data))
    (refused : ¬ Succeeds env reply data) (origin : Option ℕ) :
    signalErrors env c message origin w = 1 ↔ reply ≠ .openSession := by
  unfold signalErrors
  rw [onCommandReceived_some received]
  cases reply with
  | openSession =>
    simp only [Reply.command, if_true]
    rw [onOpen_refused refused]
    simp
  | channelCreate =>
    simp only [Reply.command, String.reduceEq, if_true, if_false]
    obtain ⟨id, hid⟩ := refusedId_of_refused rfl refused (w.controls c).peerName
    rcases onChannelCreate_cases w c data with ⟨id', desc, -, he⟩ | ⟨id', hnone, -⟩
    · rw [he, observe_signalErrors running observed]
      simp
    · rw [hid] at hnone
      cases hnone
  | channelJoin =>
    simp only [Reply.command, String.reduceEq, if_true, if_false]
    obtain ⟨id, hid⟩ := refusedId_of_refused rfl refused ""
    rcases onChannelJoin_cases w c data with ⟨id', desc, -, he⟩ | ⟨hnone, -⟩
    · rw [he, observe_signalErrors running observed]
      simp
    · rw [hid] at hnone
      cases hnone

/-- The channel of the peer itself is refused. -/
theorem refusal_reported_channel :
    signalErrors (.idle "a" (by decide)) 0 (channelCreateMessage "a" false) none
      (run (World.step (.idle "a" (by decide))) init sessionOpen) = 1 :=
  (refusal_reported_iff (.idle "a" (by decide))
    (run (World.step (.idle "a" (by decide))) init sessionOpen) 0 (by decide +kernel)
    (by decide +kernel) .channelCreate (channelCreateMessage "a" false) rfl
    (by rintro ⟨h, -⟩; cases h) none).mpr (by decide)

/-- The session itself is refused, and nobody hears of it. -/
theorem refusedSession_silent :
    ¬ Succeeds (.idle "a" (by decide)) .openSession (.obj [("result", .bool false)]) ∧
      signalErrors (.idle "a" (by decide)) 0
        (serverMessage "open" "" (.obj [("result", .bool false)])) none
        (run (World.step (.idle "a" (by decide))) init sessionOpen) = 0 := by
  refine ⟨?_, by decide +kernel⟩
  rintro ⟨h, -⟩
  cases h

end PeerApi.World
