import PeerApi.Base.Run
import Mathlib.Order.MinMax
import Mathlib.Data.List.Basic

/-! Where log messages go. The debug output and every registered stream have a threshold
each, and the smallest of them is kept apart, so that a log statement can be skipped with
one comparison. It is worked out anew whenever a threshold changes, but from the streams
only the last one enters it. What is lost by that is said exactly. -/

namespace PeerApi.Logging

open Base

inductive LoggingSeverity where
  | sensitive
  | verbose
  | info
  | warning
  | error
  | none
  deriving DecidableEq, Repr

namespace LoggingSeverity

def value : LoggingSeverity → ℕ
  | sensitive => 0
  | verbose => 1
  | info => 2
  | warning => 3
  | error => 4
  | none => 5

theorem value_injective : Function.Injective value := by
  intro a b h
  cases a <;> cases b <;> first | rfl | cases h

instance : LinearOrder LoggingSeverity := LinearOrder.lift' value value_injective

end LoggingSeverity

/-- The debug output or a stream. -/
inductive Target (Sink : Type*) where
  | debug
  | stream (sink : Sink)
  deriving DecidableEq, Repr

/-- The static members of `LogMessage`. -/
structure LogMessage (Sink : Type*) where
  minSev : LoggingSeverity
  dbgSev : LoggingSeverity
  streams : List (Sink × LoggingSeverity) := []
  logToStderr : Bool := true
  thread : Bool := false
  timestamp : Bool := false

namespace LogMessage

variable {Sink : Type*}

/-- `LS_INFO` in a debug build and `LS_NONE` in a release build. -/
def default (sev : LoggingSeverity) : LogMessage Sink := { minSev := sev, dbgSev := sev }

def loggable (l : LogMessage Sink) (sev : LoggingSeverity) : Bool := sev ≥ l.minSev

/-- Each round of the loop starts from the threshold of the debug output. -/
def updateMinLogSeverity (l : LogMessage Sink) : LogMessage Sink :=
  { l with minSev := l.streams.foldl (fun _ kv => min l.dbgSev kv.2) l.dbgSev }

def logToDebug (l : LogMessage Sink) (minSev : LoggingSeverity) : LogMessage Sink :=
  { l with dbgSev := minSev }.updateMinLogSeverity

def addLogToStream (l : LogMessage Sink) (stream : Sink) (minSev : LoggingSeverity) :
    LogMessage Sink :=
  { l with streams := l.streams ++ [(stream, minSev)] }.updateMinLogSeverity

/-- The first entry of the stream is erased. -/
def removeLogToStream [DecidableEq Sink] (l : LogMessage Sink) (stream : Sink) : LogMessage Sink :=
  { l with streams := l.streams.eraseP (fun kv => stream = kv.1) }.updateMinLogSeverity

/-- The smallest threshold of a stream, or of all of them. -/
def getLogToStream [DecidableEq Sink] (l : LogMessage Sink) (stream : Option Sink) :
    LoggingSeverity :=
  l.streams.foldl (fun sev kv => if stream.all (· = kv.1) then min sev kv.2 else sev) .none

/-- One token of the parameters, with the level named last and the level for debugging. -/
def configureToken (s : LogMessage Sink × LoggingSeverity × LoggingSeverity) (token : String) :
    LogMessage Sink × LoggingSeverity × LoggingSeverity :=
  let (l, current, debug) := s
  if token = "" then s
  else if token = "tstamp" then ({ l with timestamp := true }, current, debug)
  else if token = "thread" then ({ l with thread := true }, current, debug)
  else if token = "sensitive" then (l, .sensitive, debug)
  else if token = "verbose" then (l, .verbose, debug)
  else if token = "info" then (l, .info, debug)
  else if token = "warning" then (l, .warning, debug)
  else if token = "error" then (l, .error, debug)
  else if token = "none" then (l, .none, debug)
  else if token = "debug" then (l, current, current)
  else s

def configureLogging (l : LogMessage Sink) (tokens : List String) : LogMessage Sink :=
  let (l, _, debug) := tokens.foldl configureToken (l, .verbose, l.dbgSev)
  l.logToDebug debug

/-- The destructor of a message, which writes it. -/
def output (l : LogMessage Sink) (sev : LoggingSeverity) (str : String) :
    List (Target Sink × String) :=
  (if sev ≥ l.dbgSev ∧ l.logToStderr then [(.debug, str)] else []) ++
    (l.streams.filter fun kv => sev ≥ kv.2).map fun kv => (.stream kv.1, str)

/-- A log statement, which makes a message only if its severity is not too low. -/
def log (l : LogMessage Sink) (sev : LoggingSeverity) (str : String) :
    List (Target Sink × String) :=
  if l.loggable sev then l.output sev str else []

/-! ### The smallest threshold -/

/-- The threshold that is kept apart is the one that was worked out last. -/
def Settled (l : LogMessage Sink) : Prop := l.updateMinLogSeverity.minSev = l.minSev

theorem settled_updateMinLogSeverity (l : LogMessage Sink) : l.updateMinLogSeverity.Settled := rfl

/-- The loop forgets all streams but the last. -/
theorem minSev_updateMinLogSeverity (l : LogMessage Sink) :
    l.updateMinLogSeverity.minSev =
      match l.streams.getLast? with
      | Option.none => l.dbgSev
      | some kv => min l.dbgSev kv.2 := by
  unfold updateMinLogSeverity
  rcases l.streams.eq_nil_or_concat with h | ⟨kvs, kv, h⟩
  · rw [h]
    rfl
  · rw [h, List.concat_eq_append, List.foldl_append, List.getLast?_concat]
    rfl

theorem loggable_iff {l : LogMessage Sink} (h : l.Settled) (sev : LoggingSeverity) :
    l.loggable sev ↔ l.dbgSev ≤ sev ∨ ∃ kv ∈ l.streams.getLast?, kv.2 ≤ sev := by
  unfold loggable
  rw [← h, minSev_updateMinLogSeverity, decide_eq_true_eq]
  cases l.streams.getLast? with
  | none => simp
  | some kv => simp

theorem output_eq_nil_iff (l : LogMessage Sink) {sev : LoggingSeverity} (hdbg : sev < l.dbgSev)
    (str : String) : l.output sev str = [] ↔ ∀ kv ∈ l.streams, sev < kv.2 := by
  unfold output
  rw [if_neg fun h => absurd h.1 (not_le.mpr hdbg), List.nil_append, List.map_eq_nil_iff,
    List.filter_eq_nil_iff]
  simp

/-- When a log statement writes to all targets that ask for the message. -/
theorem log_eq_output_iff {l : LogMessage Sink} (h : l.Settled) (sev : LoggingSeverity)
    (str : String) : l.log sev str = l.output sev str ↔
      l.dbgSev ≤ sev ∨ (∃ kv ∈ l.streams.getLast?, kv.2 ≤ sev) ∨ ∀ kv ∈ l.streams, sev < kv.2 := by
  unfold log
  rw [← or_assoc, ← loggable_iff h]
  by_cases hl : l.loggable sev
  · rw [if_pos hl]
    exact ⟨fun _ => Or.inl hl, fun _ => rfl⟩
  · have hdbg : sev < l.dbgSev := by
      rw [loggable_iff h, not_or] at hl
      exact not_le.mp hl.1
    rw [if_neg hl, or_iff_right hl, ← output_eq_nil_iff l hdbg str]
    exact eq_comm

theorem log_sublist_output (l : LogMessage Sink) (sev : LoggingSeverity) (str : String) :
    (l.log sev str).Sublist (l.output sev str) := by
  unfold log
  split_ifs
  · exact List.Sublist.refl _
  · exact List.nil_sublist _

theorem le_getLogToStream_iff [DecidableEq Sink] (l : LogMessage Sink) (sev : LoggingSeverity) :
    sev ≤ l.getLogToStream Option.none ↔ ∀ kv ∈ l.streams, sev ≤ kv.2 := by
  have hfold (kvs : List (Sink × LoggingSeverity)) (start : LoggingSeverity) :
      sev ≤ kvs.foldl (fun sev kv => min sev kv.2) start ↔
        sev ≤ start ∧ ∀ kv ∈ kvs, sev ≤ kv.2 := by
    induction kvs generalizing start with
    | nil => simp
    | cons kv kvs ih => rw [List.foldl_cons, ih, le_min_iff, and_assoc, List.forall_mem_cons]
  have htop : sev ≤ LoggingSeverity.none := by cases sev <;> decide
  have hget : l.getLogToStream Option.none =
      l.streams.foldl (fun sev kv => min sev kv.2) .none := rfl
  rw [hget, hfold, and_iff_right htop]

/-- Nothing can be lost if and only if the threshold that is kept apart is not above the
smallest threshold of the streams. -/
theorem forall_log_eq_output_iff [DecidableEq Sink] {l : LogMessage Sink} (h : l.Settled) :
    (∀ sev str, l.log sev str = l.output sev str) ↔ l.minSev ≤ l.getLogToStream Option.none := by
  rw [le_getLogToStream_iff]
  constructor
  · intro hall kv hkv
    have hlog := (log_eq_output_iff h kv.2 "").mp (hall kv.2 "")
    rw [← or_assoc, ← loggable_iff h] at hlog
    rcases hlog with hl | hl
    · exact of_decide_eq_true hl
    · exact absurd (hl kv hkv) (lt_irrefl _)
  · intro hall sev str
    rw [log_eq_output_iff h, ← or_assoc, ← loggable_iff h]
    by_cases hl : l.loggable sev
    · exact Or.inl hl
    · refine Or.inr fun kv hkv => lt_of_lt_of_le ?_ (hall kv hkv)
      exact not_le.mp fun hle => hl (decide_eq_true hle)

end LogMessage

/-! ### Runs -/

inductive Action (Sink : Type*) where
  | logToDebug (minSev : LoggingSeverity)
  | setLogToStderr (on : Bool)
  | addLogToStream (stream : Sink) (minSev : LoggingSeverity)
  | removeLogToStream (stream : Sink)
  | configureLogging (tokens : List String)
  | log (sev : LoggingSeverity) (str : String)

/-- What was written so far, and what the targets asked for: every message that is not
below their threshold. -/
structure History (Sink : Type*) where
  settings : LogMessage Sink
  written : List (Target Sink × String) := []
  asked : List (Target Sink × String) := []

variable {Sink : Type*} [DecidableEq Sink]

def step (h : History Sink) : Action Sink → History Sink
  | .logToDebug minSev => { h with settings := h.settings.logToDebug minSev }
  | .setLogToStderr on => { h with settings := { h.settings with logToStderr := on } }
  | .addLogToStream stream minSev =>
    { h with settings := h.settings.addLogToStream stream minSev }
  | .removeLogToStream stream => { h with settings := h.settings.removeLogToStream stream }
  | .configureLogging tokens => { h with settings := h.settings.configureLogging tokens }
  | .log sev str =>
    { h with
      written := h.written ++ h.settings.log sev str
      asked := h.asked ++ h.settings.output sev str }

/-- The severity is at least the threshold of the debug output or of the last stream, or no
stream asks for it. -/
def Heard (h : History Sink) : Action Sink → Prop
  | .log sev _ => h.settings.dbgSev ≤ sev ∨ (∃ kv ∈ h.settings.streams.getLast?, kv.2 ≤ sev) ∨
      ∀ kv ∈ h.settings.streams, sev < kv.2
  | _ => True

/-! ### What is lost -/

theorem settled_step {h : History Sink} (hs : h.settings.Settled) (a : Action Sink) :
    (step h a).settings.Settled := by
  cases a with
  | logToDebug minSev => exact LogMessage.settled_updateMinLogSeverity _
  | setLogToStderr on => exact hs
  | addLogToStream stream minSev => exact LogMessage.settled_updateMinLogSeverity _
  | removeLogToStream stream => exact LogMessage.settled_updateMinLogSeverity _
  | configureLogging tokens => exact LogMessage.settled_updateMinLogSeverity _
  | log sev str => exact hs

theorem eq_append_iff {α : Type*} {as bs as' bs' : List α} (h : as.Sublist bs)
    (h' : as'.Sublist bs') : as ++ as' = bs ++ bs' ↔ as = bs ∧ as' = bs' := by
  constructor
  · intro heq
    have hlen := congrArg List.length heq
    have hle := h.length_le
    have hle' := h'.length_le
    rw [List.length_append, List.length_append] at hlen
    exact ⟨h.eq_of_length (by omega), h'.eq_of_length (by omega)⟩
  · rintro ⟨rfl, rfl⟩
    rfl

/-- One action loses nothing more exactly if it is heard. -/
theorem step_written_eq {h : History Sink} (hs : h.settings.Settled)
    (hsub : h.written.Sublist h.asked) (a : Action Sink) :
    (step h a).written.Sublist (step h a).asked ∧
      ((step h a).written = (step h a).asked ↔ h.written = h.asked ∧ Heard h a) := by
  cases a with
  | log sev str =>
    have hlog := h.settings.log_sublist_output sev str
    refine ⟨hsub.append hlog, ?_⟩
    exact (eq_append_iff hsub hlog).trans (and_congr_right fun _ =>
      LogMessage.log_eq_output_iff hs sev str)
  | _ => exact ⟨hsub, (and_iff_left trivial).symm⟩

theorem run_written_eq {h : History Sink} (hs : h.settings.Settled)
    (hsub : h.written.Sublist h.asked) (as : List (Action Sink)) :
    (run step h as).written = (run step h as).asked ↔
      h.written = h.asked ∧ Along step Heard h as := by
  induction as generalizing h with
  | nil => exact (and_iff_left trivial).symm
  | cons a as ih =>
    obtain ⟨hsub', hiff⟩ := step_written_eq hs hsub a
    rw [run_cons, ih (settled_step hs a) hsub', hiff, and_assoc]
    rfl

/-- Every target gets all that it asked for exactly if in each state of the run in which
something is logged, the debug output or the last stream asks for it, or no stream does. -/
theorem written_eq_asked_iff (sev : LoggingSeverity) (as : List (Action Sink)) :
    (run step { settings := .default sev } as).written =
        (run step { settings := .default sev } as).asked ↔
      Along step Heard { settings := .default sev } as := by
  have hs : (LogMessage.default sev : LogMessage Sink).Settled := rfl
  have hrun := run_written_eq (h := { settings := .default sev }) hs (List.Sublist.refl _) as
  exact hrun.trans (and_iff_right rfl)

/-- With a second stream that asks for less, the first one misses a warning. -/
example :
    (run step ({ settings := .default .none } : History Bool)
      [.addLogToStream false .warning, .addLogToStream true .error, .log .warning "w"]).written =
      [] := by decide

end PeerApi.Logging
