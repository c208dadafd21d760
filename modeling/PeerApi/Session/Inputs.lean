import PeerApi.Session.Descriptions
import Mathlib.Data.List.Forall2

/-! What the commands of the server bring to the objects: the candidates and the remote
descriptions that an object has, and the instances they come from. Each of them is read
from one command that the control of the object handled. -/

namespace PeerApi

open Base

/-- The data of the command that sends a candidate. -/
def candidateData (candidate : String × Int × String) : Json :=
  .obj [("sdp_mid", .str candidate.1), ("sdp_mline_index", .int candidate.2.1),
    ("candidate", .str candidate.2.2)]

def Effect.answered? : Effect → Option (Option ℕ)
  | .answered origin => some origin
  | _ => none

namespace PeerControl

/-- The instances that the remote descriptions of the object come from. -/
def sources (p : PeerControl) : List (Option ℕ) :=
  (if p.role = some .answer then [p.origin] else []) ++ p.log.filterMap Effect.answered?

/-- The object has received nothing in between. -/
structure SameInputs (p q : PeerControl) : Prop where
  control : q.control = p.control
  candidates : q.candidates = p.candidates
  remoteDescriptions : q.remoteDescriptions = p.remoteDescriptions
  sources : q.sources = p.sources

theorem SameInputs.refl (p : PeerControl) : SameInputs p p := ⟨rfl, rfl, rfl, rfl⟩

theorem setChannel_inputs (p : PeerControl) (side : Side) (ch : DataChannel) :
    (p.setChannel side ch).candidates = p.candidates ∧
      (p.setChannel side ch).remoteDescriptions = p.remoteDescriptions := by
  cases side <;> exact ⟨rfl, rfl⟩

theorem callback_inputs (p : PeerControl) (cb : Callback) :
    (p.callback cb).1.candidates = p.candidates ∧
      (p.callback cb).1.remoteDescriptions = p.remoteDescriptions := by
  cases cb with
  | onSuccess sdp =>
    simp only [callback, onSuccess]
    split
    · exact ⟨rfl, rfl⟩
    · exact ⟨rfl, rfl⟩
    · unfold setLocalDescription
      split_ifs <;> exact ⟨rfl, rfl⟩
  | onStateChange side state =>
    simp only [callback, onStateChange]
    split
    · exact ⟨rfl, rfl⟩
    next ch _ =>
      split_ifs
      · have hs := setChannel_inputs p side (ch.advance state).onStateChange
        cases state with
        | «open» =>
          simp only [onPeerOpened]
          split_ifs <;> exact hs
        | connecting => exact hs
        | closing => exact hs
        | closed => exact hs
      · exact ⟨rfl, rfl⟩
  | channelState side state =>
    simp only [callback]
    split
    · exact ⟨rfl, rfl⟩
    · exact setChannel_inputs p side _
  | bufferedAmount side amount =>
    simp only [callback]
    split
    · exact ⟨rfl, rfl⟩
    · exact setChannel_inputs p side _
  | _ => exact ⟨rfl, rfl⟩

theorem callbacks_inputs (p : PeerControl) (cbs : List Callback) :
    (p.callbacks cbs).1.candidates = p.candidates ∧
      (p.callbacks cbs).1.remoteDescriptions = p.remoteDescriptions := by
  induction cbs generalizing p with
  | nil => exact ⟨rfl, rfl⟩
  | cons cb cbs ih =>
    obtain ⟨h1, h2⟩ := callback_inputs p cb
    obtain ⟨h3, h4⟩ := ih (p.callback cb).1
    exact ⟨h3.trans h1, h4.trans h2⟩

theorem callback_answered? (p : PeerControl) (cb : Callback) :
    (p.callback cb).2.filterMap Effect.answered? = [] := by
  have hr := callback_raises p cb
  generalize (p.callback cb).1 = q, (p.callback cb).2 = es at hr
  cases hr <;> simp [Effect.answered?]

theorem callbacks_answered? (p : PeerControl) (cbs : List Callback) :
    (p.callbacks cbs).2.filterMap Effect.answered? = [] := by
  induction cbs generalizing p with
  | nil => rfl
  | cons cb cbs ih =>
    simp only [callbacks, List.filterMap_append]
    rw [callback_answered?, ih, List.append_nil]

theorem sources_of_log {p q : PeerControl} (hrole : q.role = p.role) (horigin : q.origin = p.origin)
    (hlog : q.log.filterMap Effect.answered? = p.log.filterMap Effect.answered?) :
    q.sources = p.sources := by
  rw [sources, sources, hrole, horigin, hlog]

end PeerControl

namespace World

open PeerControl

theorem callback_sameInputs (p : PeerControl) (cb : Callback) :
    SameInputs p (logged (p.callback cb)) := by
  have hk := callback_keeps p cb
  obtain ⟨h1, h2⟩ := callback_inputs p cb
  refine ⟨hk.control, h1, h2, sources_of_log hk.role hk.origin ?_⟩
  simp only [logged, List.filterMap_append, callback_answered?, List.append_nil, hk.log]

theorem close_sameInputs {p : PeerControl} (hl : p.Live) (code : CloseCode) (cbs : List Callback) :
    SameInputs p (logged ((p.close code cbs).1, .removed :: (p.close code cbs).2)) := by
  have hk := callbacks_keeps p.closingPeer cbs
  obtain ⟨h1, h2⟩ := callbacks_inputs p.closingPeer cbs
  rw [hl.close_eq]
  refine ⟨hk.control, h1, h2, sources_of_log hk.role hk.origin ?_⟩
  simp only [logged, List.filterMap_append, List.filterMap_cons, List.filterMap_nil,
    Effect.answered?, List.cons_append, callbacks_answered?, List.append_nil, hk.log]
  rfl

theorem sources_answered (p : PeerControl) (sdp : String) (origin : Option ℕ) :
    (logged (p.setRemoteDescription .answer sdp, [.answered origin])).sources =
      p.sources ++ [origin] := by
  simp only [sources, logged, setRemoteDescription, List.filterMap_append, List.append_assoc]
  rfl

/-! ### What a command brings -/

/-- The description in a command of the server. -/
def readDescription (env : Env) (message : Json) : Option (SdpType × String) :=
  match parseCommand env message with
  | none => none
  | some (command, _, data) =>
    if command = "offersdp" then
      (env.rtc.getStringFromJsonObject data "sdp").map fun sdp => (.offer, sdp)
    else if command = "answersdp" then
      (env.rtc.getStringFromJsonObject data "sdp").map fun sdp => (.answer, sdp)
    else none

/-- The candidate in a command of the server. -/
def readCandidate (env : Env) (message : Json) : Option (String × Int × String) :=
  match parseCommand env message with
  | none => none
  | some (command, _, data) =>
    if command = "ice_candidate" then
      match env.rtc.getStringFromJsonObject data "sdp_mid",
          env.rtc.getIntFromJsonObject data "sdp_mline_index",
          env.rtc.getStringFromJsonObject data "candidate" with
      | some sdpMid, some sdpMlineIndex, some candidate => some (sdpMid, sdpMlineIndex, candidate)
      | _, _, _ => none
    else none

/-- What the object gains while the message, if any, is handled. -/
inductive Gains (env : Env) (m : Option Message) (p q : PeerControl) : Prop where
  | nothing (h : SameInputs p q)
  | answer {m' : Message} (hm : m = some m') {sdp : String} (asked : m'.messageId = .commandReceived)
      (read : readDescription env m'.data.dataJson = some (.answer, sdp))
      (control : q.control = p.control) (candidates : q.candidates = p.candidates)
      (remoteDescriptions : q.remoteDescriptions = p.remoteDescriptions ++ [(.answer, sdp)])
      (sources : q.sources = p.sources ++ [m'.origin])
  | candidate {m' : Message} (hm : m = some m') {candidate : String × Int × String}
      (handler : m'.handler = p.control) (asked : m'.messageId = .commandReceived)
      (read : readCandidate env m'.data.dataJson = some candidate)
      (control : q.control = p.control) (candidates : q.candidates = p.candidates ++ [candidate])
      (remoteDescriptions : q.remoteDescriptions = p.remoteDescriptions)
      (sources : q.sources = p.sources)

/-- An object that the handling of the message has made. -/
structure Made (env : Env) (m : Option Message) (q : PeerControl) : Prop where
  handled : ∃ m', m = some m' ∧ q.control = m'.handler ∧
    (q.remoteDescriptions = [] ∧ q.sources = [] ∨
      ∃ sdp, m'.messageId = .commandReceived ∧
        readDescription env m'.data.dataJson = some (.offer, sdp) ∧
        q.remoteDescriptions = [(.offer, sdp)] ∧ q.sources = [m'.origin])
  candidates : q.candidates = []

variable {env : Env} {m : Option Message} {w w' : World}

/-- What a deed brings to the objects. -/
structure Brings (env : Env) (m : Option Message) (w w' : World) : Prop where
  insts : w.nextInst ≤ w'.nextInst
  old : ∀ x, x < w.nextInst → Gains env m (w.insts x) (w'.insts x)
  new : ∀ x, w.nextInst ≤ x → x < w'.nextInst → Made env m (w'.insts x)

theorem Brings.of_same (hi : w'.insts = w.insts) (hn : w'.nextInst = w.nextInst) :
    Brings env m w w' where
  insts := hn.ge
  old x _ := by rw [hi]; exact .nothing (.refl _)
  new _ hx hx' := absurd hx' (Nat.not_lt_of_le (hn ▸ hx))

theorem Brings.setInst {x : ℕ} {q : PeerControl} (h : Gains env m (w.insts x) q) :
    Brings env m w (w.setInst x q) := by
  refine ⟨le_rfl, fun y hy => ?_, fun y hy hy' => absurd hy' (Nat.not_lt_of_le hy)⟩
  by_cases hyx : y = x
  · subst hyx
    rwa [setInst_insts_self]
  · rw [setInst_insts_ne hyx]
    exact .nothing (.refl _)

theorem Brings.newInst {q : PeerControl} (h : Made env m q) : Brings env m w (w.newInst q) := by
  refine ⟨Nat.le_succ _, fun x hx => ?_, fun x hx hx' => ?_⟩
  · rw [newInst_insts_lt hx]
    exact .nothing (.refl _)
  · obtain rfl : x = w.nextInst := Nat.le_antisymm (Nat.lt_succ_iff.mp hx') hx
    rwa [newInst_insts_self]

theorem Brings.register {c : ℕ} {q : PeerControl} (h : Made env m q) :
    Brings env m w (w.register c q) := by
  have hnew : Brings env m w (w.newInst q) := .newInst h
  exact ⟨hnew.insts, hnew.old, hnew.new⟩

/-- What follows leaves the objects alone. -/
theorem Brings.then {w₁ : World} (h : Brings env m w w₁) (hs : SameRegistry w₁ w') :
    Brings env m w w' := by
  refine ⟨hs.nextInst ▸ h.insts, ?_, ?_⟩
  · rw [hs.insts]
    exact h.old
  · rw [hs.insts, hs.nextInst]
    exact h.new

theorem Deed.brings (hd : Deed env m w w') (hw : Sound env w) : Brings env m w w' := by
  cases hd with
  | call h => exact .of_same h.same.insts h.same.nextInst
  | callback x cb hx alive started =>
    have h : Brings env m w (w.setInst x (logged ((w.insts x).callback cb))) :=
      .setInst (.nothing (callback_sameInputs _ cb))
    exact h.then (runPeer_calls hw started cb).same
  | closed c k x code hx =>
    have hl := (hw.entries c k x hx).live
    have h : Brings env m (w.modifyControl c fun q => { q with peers := q.peers.erase k })
        (w.removePeer env c k x code) :=
      .setInst (.nothing (close_sameInputs hl code (env.onRelease x)))
    have h' : Brings env m w (w.removePeer env c k x code) := ⟨h.insts, h.old, h.new⟩
    exact h'.then (closePeer_calls hw hx code).same
  | answered hm asked read hx =>
    have he := hw.entries _ _ _ hx
    rw [he.live.receiveAnswerSdp_eq]
    refine .setInst (.answer hm asked.messageId ?_ rfl rfl rfl ?_)
    · simp [readDescription, asked.parsed, read]
    · exact sources_answered _ _ _
  | candidate hm asked mid index read hx =>
    have he := hw.entries _ _ _ hx
    rw [he.live.addIceCandidate_eq]
    refine .setInst (.candidate hm (asked.handler.trans he.control.symm) asked.messageId ?_ rfl rfl
      rfl ?_)
    · simp [readCandidate, asked.parsed, mid, index, read]
    · simp [sources, logged]
  | offering hm remoteId thread ok =>
    rw [newPeer_ok ok]
    exact .register ⟨⟨_, hm, rfl, Or.inl ⟨rfl, rfl⟩⟩, rfl⟩
  | answering hm asked read thread ok =>
    rw [newPeer_ok ok]
    refine .register ⟨⟨_, hm, asked.handler.symm, Or.inr ⟨_, asked.messageId, ?_, rfl, rfl⟩⟩, rfl⟩
    simp [readDescription, asked.parsed, read]
  | rejected hm remoteId thread failed =>
    rw [newPeer_failed failed]
    exact .newInst ⟨⟨_, hm, rfl, Or.inl ⟨rfl, rfl⟩⟩, rfl⟩

/-! ### Commands in the queue -/

/-- The commands of the server that the control has not handled yet. -/
def commandsFor (c : ℕ) (w : World) : List (Json × Option ℕ) :=
  (w.queue.filter fun m => m.messageId = .commandReceived ∧ m.handler = c).map fun m =>
    (m.data.dataJson, m.origin)

theorem commandsFor_append (c : ℕ) (w : World) (m : Message) :
    commandsFor c { w with queue := w.queue ++ [m] } = w.commandsFor c ++
      if m.messageId = .commandReceived ∧ m.handler = c then [(m.data.dataJson, m.origin)]
      else [] := by
  simp only [commandsFor, List.filter_append, List.map_append]
  split_ifs with h <;> simp [h]

theorem Move.commandsFor {src : ℕ → Effect → Prop} (h : Move env src w w') (c : ℕ) :
    w'.commandsFor c = w.commandsFor c := by
  cases h with
  | post m thread ref ok =>
    have hm : m.messageId ≠ .commandReceived := by
      intro hm
      simp [PostOk, hm] at ok
    rw [commandsFor_append, if_neg fun h => hm h.1, List.append_nil]
  | _ => rfl

theorem Calls.commandsFor {raises : ℕ → Event → Prop} {src : ℕ → Effect → Prop}
    (h : Calls env raises src w w') (c : ℕ) : w'.commandsFor c = w.commandsFor c := by
  refine calls_invariant (P := fun w₁ => w₁.commandsFor c = w.commandsFor c)
    (fun h hw => ?_) h rfl
  cases h with
  | move h => exact (h.commandsFor c).trans hw
  | event c' source e running set ok admits moves =>
    refine calls_invariant (P := fun w₁ => w₁.commandsFor c = w.commandsFor c)
      (fun h hw => ?_) moves hw
    cases h with
    | move h => exact (h.commandsFor c).trans hw
    | _ => exact hw

theorem Deed.commandsFor (hd : Deed env m w w') (hw : Sound env w) (c : ℕ) :
    w'.commandsFor c = w.commandsFor c := by
  cases hd with
  | call h => exact Calls.commandsFor (.single h) c
  | callback x cb hx alive started => exact (runPeer_calls hw started cb).commandsFor c
  | closed d k x code hx => exact (closePeer_calls hw hx code).commandsFor c
  | _ => rfl

/-- A command is posted to each control at most once. -/
theorem signalOnCommandReceived_commandsFor (message : Json) (origin : Option ℕ) (w : World)
    (c : ℕ) : ∃ l, (w.signalOnCommandReceived message origin).commandsFor c =
      w.commandsFor c ++ l ∧ l.Sublist [(message, origin)] := by
  have hpost (w : World) (d : ℕ) : ∃ l,
      (onSignalCommandReceived message origin w d).commandsFor c = w.commandsFor c ++ l ∧
        l.Sublist (if d = c then [(message, origin)] else []) := by
    unfold onSignalCommandReceived post
    split_ifs with ht hd
    · exact ⟨_, commandsFor_append c w _, by simp [hd]⟩
    · exact ⟨_, commandsFor_append c w _, by simp [hd]⟩
    · exact ⟨[], by simp [commandsFor, crash], List.nil_sublist _⟩
    · exact ⟨[], by simp [commandsFor, crash], List.nil_sublist _⟩
  have hfold (cs : List ℕ) (hcs : cs.Nodup) (w : World) : ∃ l,
      (cs.foldl (onSignalCommandReceived message origin) w).commandsFor c = w.commandsFor c ++ l ∧
        l.Sublist (if c ∈ cs then [(message, origin)] else []) := by
    induction cs generalizing w with
    | nil => exact ⟨[], by simp, by simp⟩
    | cons d cs ih =>
      obtain ⟨hd, hcs⟩ := List.nodup_cons.mp hcs
      obtain ⟨l, h1, h2⟩ := hpost w d
      obtain ⟨l', h3, h4⟩ := ih hcs (onSignalCommandReceived message origin w d)
      refine ⟨l ++ l', by rw [List.foldl_cons, h3, h1, List.append_assoc], ?_⟩
      by_cases hdc : d = c
      · subst hdc
        rw [if_neg hd, List.sublist_nil] at h4
        rw [if_pos rfl] at h2
        rw [h4, List.append_nil, if_pos List.mem_cons_self]
        exact h2
      · rw [if_neg hdc, List.sublist_nil] at h2
        simp only [List.mem_cons, Ne.symm hdc, false_or]
        rw [h2, List.nil_append]
        exact h4
  obtain ⟨l, h1, h2⟩ := hfold w.subscribed (List.nodup_range.filter _) w
  refine ⟨l, h1, h2.trans ?_⟩
  split_ifs
  · exact List.Sublist.refl _
  · exact List.nil_sublist _

/-! ### Steps -/

theorem taken_sound (hw : Sound env w) (a : Action) : Sound env (w.taken a) := by
  cases a with
  | process => exact { hw with queued := fun m hm => hw.queued m (List.mem_of_mem_tail hm) }
  | _ => exact hw

/-- What a step brings in the way of candidates: one from the command it handles, to one
object, or none. -/
structure BringsCandidates (env : Env) (m : Option Message) (w w' : World) : Prop where
  insts : w.nextInst ≤ w'.nextInst
  control : ∀ x, x < w.nextInst → (w'.insts x).control = (w.insts x).control
  old : ∀ x, x < w.nextInst → (w'.insts x).candidates = (w.insts x).candidates ∨
    ∃ m' candidate, m = some m' ∧ m'.handler = (w.insts x).control ∧
      m'.messageId = .commandReceived ∧ readCandidate env m'.data.dataJson = some candidate ∧
      (w'.insts x).candidates = (w.insts x).candidates ++ [candidate]
  new : ∀ x, w.nextInst ≤ x → x < w'.nextInst → (w'.insts x).candidates = []
  queue : ∀ c, w'.commandsFor c = w.commandsFor c

theorem Gains.control {p q : PeerControl} (h : Gains env m p q) : q.control = p.control := by
  cases h with
  | nothing h => exact h.control
  | answer hm asked read control candidates remoteDescriptions sources => exact control
  | candidate hm handler asked read control candidates remoteDescriptions sources => exact control

theorem BringsCandidates.refl (w : World) : BringsCandidates env m w w :=
  ⟨le_rfl, fun _ _ => rfl, fun _ _ => Or.inl rfl, fun _ hx hx' => absurd hx' (Nat.not_lt_of_le hx),
    fun _ => rfl⟩

theorem Deed.bringsCandidates (hd : Deed env m w w') (hw : Sound env w) :
    BringsCandidates env m w w' := by
  have h := hd.brings hw
  refine ⟨h.insts, fun x hx => (h.old x hx).control, fun x hx => ?_,
    fun x hx hx' => (h.new x hx hx').candidates, hd.commandsFor hw⟩
  cases h.old x hx with
  | nothing h => exact Or.inl h.candidates
  | answer hm asked read control candidates remoteDescriptions sources => exact Or.inl candidates
  | candidate hm handler asked read control candidates remoteDescriptions sources =>
    exact Or.inr ⟨_, _, hm, handler, asked, read, candidates⟩

/-- A message without a candidate brings none, however many deeds it takes. -/
theorem Deeds.bringsCandidates (hd : Deeds env m w w') (hw : Sound env w)
    (hnone : ∀ m', m = some m' → m'.messageId = .commandReceived →
      readCandidate env m'.data.dataJson = none) : BringsCandidates env m w w' := by
  refine deeds_invariant (P := BringsCandidates env m w) (fun {w₁ w₂} hd hw h => ?_) hd hw (.refl w)
  have h' := hd.bringsCandidates hw
  have same : ∀ x, x < w₁.nextInst → (w₂.insts x).candidates = (w₁.insts x).candidates := by
    intro x hx
    refine (h'.old x hx).resolve_right ?_
    rintro ⟨m', candidate, hm, -, hid, hread, -⟩
    rw [hnone m' hm hid] at hread
    cases hread
  refine ⟨h.insts.trans h'.insts, fun x hx => ?_, fun x hx => Or.inl ?_, fun x hx hx' => ?_,
    fun c => (h'.queue c).trans (h.queue c)⟩
  · exact (h'.control x (hx.trans_le h.insts)).trans (h.control x hx)
  · rw [same x (hx.trans_le h.insts)]
    refine (h.old x hx).resolve_right ?_
    rintro ⟨m', candidate, hm, -, hid, hread, -⟩
    rw [hnone m' hm hid] at hread
    cases hread
  · by_cases hlt : x < w₁.nextInst
    · rw [same x hlt]
      exact h.new x hx hlt
    · exact h'.new x (Nat.le_of_not_lt hlt) hx'

theorem act_bringsCandidates (hw : Reached env w) {a : Action}
    (ha : ∀ message origin, a ≠ .command message origin) :
    BringsCandidates env (w.handling a) (w.taken a) (w.act env a) := by
  by_cases hnone : ∀ m', w.handling a = some m' → m'.messageId = .commandReceived →
      readCandidate env m'.data.dataJson = none
  · exact (act_deeds hw ha).bringsCandidates (taken_sound hw.toSound a) hnone
  · push Not at hnone
    obtain ⟨m', hm, hid, hread⟩ := hnone
    cases a with
    | process =>
      obtain ⟨queue, hq⟩ : ∃ queue, w.queue = m' :: queue := by
        cases hqueue : w.queue with
        | nil => simp [handling, hqueue] at hm
        | cons m'' queue =>
          simp only [handling, hqueue, List.head?_cons, Option.some.injEq] at hm
          exact ⟨queue, by rw [hm]⟩
      obtain ⟨command, peerId, data, hparse⟩ : ∃ command peerId data,
          parseCommand env m'.data.dataJson = some (command, peerId, data) := by
        cases hp : parseCommand env m'.data.dataJson with
        | none => simp [readCandidate, hp] at hread
        | some p => exact ⟨p.1, p.2.1, p.2.2, rfl⟩
      have hcommand : command = "ice_candidate" := by
        by_contra hne
        simp [readCandidate, hparse, hne] at hread
      subst hcommand
      have hact : w.act env .process = (w.taken .process).addIceCandidate env m'.handler peerId data := by
        simp only [act, process, hq, onMessage, hid, onCommandReceived_some hparse, taken,
          List.tail_cons, String.reduceEq, if_true, if_false]
      rw [hact, hm]
      rcases addIceCandidate_deed (m := m') (taken_sound hw.toSound .process)
        ⟨hid, rfl, hparse⟩ with h | h
      · rw [h]
        exact .refl _
      · exact h.bringsCandidates (taken_sound hw.toSound .process)
    | _ => cases hm

/-! ### Where descriptions come from -/

/-- Each remote description is one that its source may have made. -/
def Backed (good : Option ℕ → SdpType × String → Prop) (p : PeerControl) : Prop :=
  List.Forall₂ good p.sources p.remoteDescriptions

theorem Deed.backed {good : Option ℕ → SdpType × String → Prop} (hd : Deed env m w w')
    (hw : Sound env w)
    (hgood : ∀ m', m = some m' → m'.messageId = .commandReceived → ∀ d,
      readDescription env m'.data.dataJson = some d → good m'.origin d)
    (h : Everywhere (Backed good) w) : Everywhere (Backed good) w' := by
  have hb := hd.brings hw
  intro x hx
  by_cases hlt : x < w.nextInst
  · have hold := h x hlt
    unfold Backed at hold ⊢
    cases hb.old x hlt with
    | nothing h => rwa [h.sources, h.remoteDescriptions]
    | answer hm asked read control candidates remoteDescriptions sources =>
      rw [sources, remoteDescriptions]
      exact List.rel_append hold (.cons (hgood _ hm asked _ read) .nil)
    | candidate hm handler asked read control candidates remoteDescriptions sources =>
      rwa [sources, remoteDescriptions]
  · obtain ⟨m', hm, -, hnew⟩ := (hb.new x (Nat.le_of_not_lt hlt) hx).handled
    unfold Backed
    rcases hnew with ⟨h1, h2⟩ | ⟨sdp, asked, read, h1, h2⟩
    · rw [h1, h2]
      exact .nil
    · rw [h1, h2]
      exact .cons (hgood m' hm asked _ read) .nil

theorem act_backed {good : Option ℕ → SdpType × String → Prop} (hw : Reached env w) {a : Action}
    (ha : ∀ message origin, a ≠ .command message origin)
    (hgood : ∀ m', w.handling a = some m' → m'.messageId = .commandReceived → ∀ d,
      readDescription env m'.data.dataJson = some d → good m'.origin d)
    (h : Everywhere (Backed good) w) : Everywhere (Backed good) (w.act env a) := by
  have htaken : Everywhere (Backed good) (w.taken a) := by cases a <;> exact h
  exact deeds_invariant (P := Everywhere (Backed good)) (fun hd hw h => hd.backed hw hgood h)
    (act_deeds hw ha) (taken_sound hw.toSound a) htaken

/-! ### Descriptions stay -/

/-- An object never loses a description that it has made. -/
def KeepsDescriptions (w w' : World) : Prop :=
  w.nextInst ≤ w'.nextInst ∧ ∀ x, x < w.nextInst →
    (w.insts x).localDescriptions <+: (w'.insts x).localDescriptions

theorem KeepsDescriptions.trans {w'' : World} (h : KeepsDescriptions w w')
    (h' : KeepsDescriptions w' w'') : KeepsDescriptions w w'' :=
  ⟨h.1.trans h'.1, fun x hx => (h.2 x hx).trans (h'.2 x (hx.trans_le h.1))⟩

theorem KeepsDescriptions.of_same (hs : SameRegistry w w') : KeepsDescriptions w w' := by
  exact ⟨hs.nextInst.ge, fun x _ => hs.insts ▸ List.prefix_rfl⟩

theorem KeepsDescriptions.setInst {x : ℕ} {q : PeerControl}
    (h : (w.insts x).localDescriptions <+: q.localDescriptions) :
    KeepsDescriptions w (w.setInst x q) := by
  refine ⟨le_rfl, fun y _ => ?_⟩
  by_cases hyx : y = x
  · subst hyx
    rwa [setInst_insts_self]
  · exact (setInst_insts_ne hyx q w).symm ▸ List.prefix_rfl

theorem KeepsDescriptions.newInst (q : PeerControl) : KeepsDescriptions w (w.newInst q) := by
  refine ⟨Nat.le_succ _, fun x hx => ?_⟩
  have hold : (w.newInst q).insts x = w.insts x := newInst_insts_lt hx
  exact hold.symm ▸ List.prefix_rfl

theorem Tick.keepsDescriptions {G : Guard} (h : Tick env G w w') (hw : Sound env w) :
    KeepsDescriptions w w' := by
  cases h with
  | call h => exact .of_same h.same
  | dequeued m queue h => exact .of_same ⟨rfl, rfl, fun _ => rfl, fun _ => rfl⟩
  | received c message origin thread ok =>
    exact .of_same ⟨rfl, rfl, fun _ => rfl, fun _ => rfl⟩
  | callback x cb hx alive started report h =>
    refine KeepsDescriptions.trans (.setInst ?_) (.of_same h.same)
    simp only [logged]
    rcases callback_describes (p := w.insts x) cb with ⟨h1, -⟩ | ⟨type, sdp, -, -, -, h1, -⟩
    · exact h1.symm ▸ List.prefix_rfl
    · rw [h1]
      split_ifs
      · exact List.prefix_append _ _
      · exact List.prefix_rfl
  | answered c k x sdp origin h from_ =>
    rw [(hw.entries c k x h).live.receiveAnswerSdp_eq]
    exact .setInst List.prefix_rfl
  | candidate c k x sdpMid sdpMlineIndex candidate h =>
    rw [(hw.entries c k x h).live.addIceCandidate_eq]
    exact .setInst List.prefix_rfl
  | closed c k x code h calls =>
    have hl := (hw.entries c k x h).live
    have hsilent := callbacks_silent (p := (w.insts x).closingPeer) (by simp [closingPeer])
      (env.onRelease x)
    have hset : KeepsDescriptions (w.modifyControl c fun q => { q with peers := q.peers.erase k })
        (w.removePeer env c k x code) := by
      refine .setInst ?_
      rw [hl.close_eq]
      exact hsilent.1.symm ▸ List.prefix_rfl
    have hremove : KeepsDescriptions w (w.removePeer env c k x code) := hset
    exact hremove.trans (.of_same calls.same)
  | registered c p ids thread new starts =>
    have hnew : KeepsDescriptions w (w.newInst p) := .newInst p
    exact hnew
  | rejected c remoteId thread failed => exact .newInst _

theorem step_keepsDescriptions (hw : Reached env w) (a : Action) :
    KeepsDescriptions w (w.step env a) := by
  rcases step_ticks hw (admitted_free env w a) with h | ⟨-, ht, h⟩
  · rw [h]
    exact .of_same (.refl w)
  · rw [h]
    have hall := calls_invariant (P := fun w₁ => Sound env w₁ ∧ KeepsDescriptions w w₁)
      (fun ht hw => ⟨ht.sound hw.1, hw.2.trans (ht.keepsDescriptions hw.1)⟩) ht
      ⟨hw.toSound, .of_same (.refl w)⟩
    refine hall.2.trans ⟨le_rfl, fun x _ => ?_⟩
    have hkeep := releaseInsts_keeps (w := (w.act env a).releaseControls) (·.localDescriptions)
      (fun _ => rfl) x
    exact hkeep ▸ List.prefix_rfl

/-! ### What is sent -/

/-- A candidate is sent in one shape only. -/
def SendsCandidates (p : PeerControl) : Prop :=
  ∀ channel data, .sendCommand channel "ice_candidate" data ∈ p.log →
    ∃ candidate, data = candidateData candidate

theorem callback_candidate {p : PeerControl} {cb : Callback} {channel : String} {data : Json}
    (h : Effect.sendCommand channel "ice_candidate" data ∈ (p.callback cb).2) :
    ∃ candidate, data = candidateData candidate := by
  have hr := callback_raises p cb
  generalize (p.callback cb).1 = q, (p.callback cb).2 = es at hr h
  cases hr with
  | described type sdp _ connecting pending state =>
    cases type <;> simp [descriptionCommand] at h
  | candidate sdpMid sdpMlineIndex sdp =>
    simp only [List.mem_singleton, Effect.sendCommand.injEq] at h
    exact ⟨(sdpMid, sdpMlineIndex, sdp), h.2.2⟩
  | _ => simp at h

theorem callbacks_candidate {p : PeerControl} {cbs : List Callback} {channel : String} {data : Json}
    (h : Effect.sendCommand channel "ice_candidate" data ∈ (p.callbacks cbs).2) :
    ∃ candidate, data = candidateData candidate := by
  induction cbs generalizing p with
  | nil => cases h
  | cons cb cbs ih =>
    rcases List.mem_append.mp h with h | h
    · exact callback_candidate h
    · exact ih h

theorem sendsCandidates_lasting (env : Env) : Lasting env SendsCandidates where
  offering c localId remoteId channel data h := by cases h
  answering c localId remoteId sdp origin channel data h := by cases h
  rejected c localId remoteId channel data h := by cases h
  callback {p} cb hs hp channel data h := by
    simp only [logged, (callback_keeps p cb).log] at h
    rcases List.mem_append.mp h with h | h
    · exact hp channel data h
    · exact callback_candidate h
  answered sdp origin hl hp channel data h := by
    rcases List.mem_append.mp h with h | h
    · exact hp channel data h
    · simp at h
  candidate candidates hl hp := hp
  closed {p} x code hl hp channel data h := by
    simp only [logged, hl.close_eq, (callbacks_keeps p.closingPeer (env.onRelease x)).log,
      List.cons_append, List.mem_append, List.mem_cons, List.not_mem_nil, or_false, reduceCtorEq,
      false_or] at h
    rcases h with h | h
    · exact hp channel data h
    · exact callbacks_candidate h
  released hp := hp

/-- A command that comes from no object is about a channel. -/
def ChannelCommands (w : World) : Prop :=
  ∀ sc ∈ w.commands, sc.source = none →
    sc.command = "createchannel" ∨ sc.command = "joinchannel" ∨ sc.command = "leavechannel"

theorem ChannelCommands.calls {raises : ℕ → Event → Prop} {src : ℕ → Effect → Prop}
    (h : ChannelCommands w) (hc : Calls env raises src w w') : ChannelCommands w' := by
  obtain ⟨new, hnew, hok⟩ := hc.sends
  intro sc hsc hnone
  rw [hnew] at hsc
  rcases List.mem_append.mp hsc with hsc | hsc
  · exact h sc hsc hnone
  · have ok := hok sc hsc
    simp only [CommandOk, hnone] at ok
    exact ok

theorem channelCommands_run (env : Env) (as : List Action) :
    ChannelCommands (run (World.step env) init as) := by
  refine run_of_ticks (P := ChannelCommands) (fun sc hsc => by cases hsc) (fun ht hw h => ?_)
    (fun h => h) as
  cases ht with
  | call hc => exact h.calls (.single hc)
  | callback x cb hx alive started report hc =>
    exact ChannelCommands.calls (w := World.setInst x _ _) h hc
  | closed c k x code hx hc =>
    exact ChannelCommands.calls (w := World.removePeer env c k x code _) h hc
  | _ => exact h

/-- Every command is one about a channel, a candidate of an object, or the description
that an object has made. -/
theorem command_run (env : Env) (as : List Action) :
    let w := run (World.step env) init as
    ∀ sc ∈ w.commands,
      (sc.command = "createchannel" ∨ sc.command = "joinchannel" ∨ sc.command = "leavechannel") ∨
      (sc.command = "ice_candidate" ∧ ∃ candidate, sc.data = candidateData candidate) ∨
      ∃ x type sdp, sc.source = some x ∧ x < w.nextInst ∧ sc.command = descriptionCommand type ∧
        sc.data = .obj [("sdp", .str sdp)] ∧ (w.insts x).localDescriptions = [(type, sdp)] := by
  intro w sc hsc
  cases hsource : sc.source with
  | none => exact Or.inl (channelCommands_run env as sc hsc hsource)
  | some x =>
    have hsent : .sendCommand sc.channel sc.command sc.data ∈ w.sentBy x :=
      List.mem_filterMap.mpr ⟨sc, hsc, if_pos hsource⟩
    have hx : x < w.nextInst := by
      by_contra hge
      rw [(recorded_run env as).none x (Nat.le_of_not_lt hge)] at hsent
      cases hsent
    have hlog := ((recorded_run env as).calls x hx).subset hsent
    by_cases hcommand : sc.command = "ice_candidate"
    · rw [hcommand] at hlog
      exact Or.inr (Or.inl ⟨hcommand, (sendsCandidates_lasting env).run as x hx _ _ hlog⟩)
    · have hd := (describes_lasting env).run as x hx
      have hmem : (sc.channel, sc.command, sc.data) ∈
          (w.insts x).log.filterMap Effect.description? :=
        List.mem_filterMap.mpr ⟨_, hlog, if_neg hcommand⟩
      rw [hd.sent] at hmem
      obtain ⟨⟨type, sdp⟩, hdesc, heq⟩ := List.mem_map.mp hmem
      simp only [announcement, Prod.mk.injEq] at heq
      refine Or.inr (Or.inr ⟨x, type, sdp, rfl, hx, heq.2.1.symm, heq.2.2.symm, ?_⟩)
      exact eq_singleton hdesc hd.once

end World

end PeerApi
