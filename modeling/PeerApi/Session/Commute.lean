import PeerApi.Session.CloseAll
import PeerApi.Session.Instances

/-! Commands about different peers commute. While the handlers of the user make no
calls, a command of the server about one remote id reads the entry of that id, the
name of the control, the installed session and whether the signal connection is
open, and nothing else; what it does is a function of this view. It replaces the
object of the entry or makes a new one, appends to the logs, and leaves the views of
the other ids as they were. Two commands about different ids therefore do the same in
either order.

The outcome of `Initialize` is a function of the id here: were it a function of the
order of the calls, the order would show. -/

namespace PeerApi

/-- The environment while a command is handled: the handlers of the user make no calls,
and `Initialize` has the given outcome. -/
def Env.calm (env : Env) (o : InitOutcome) : Env :=
  { env with handler := fun _ => [], initOutcome := fun _ => o }

/-- The observation is of an event of `id`. -/
def Obs.names (id : String) (o : Obs) : Bool := o.event?.any fun e => e.peerId = id

/-- The events of an object in order are about one of its two ids. -/
theorem Effect.Ok.event_peerId {p : PeerControl} {f : Effect} (hok : f.Ok p) {e : Event}
    (he : f.event? = some e) : e.peerId = p.remoteId ∨ e.peerId = p.localId := by
  cases f with
  | onPeerConnect peerId => cases he; exact Or.inl hok
  | onPeerClose peerId code => cases he; exact Or.inl hok
  | onPeerMessage peerId data => cases he; exact Or.inl hok
  | onPeerWritable peerId => cases he; exact hok
  | _ => cases he

namespace World

open Base

variable {env : Env} {w w' w'' : World} {c : ℕ}

/-! ### The local id of an object -/

/-- The object was made for the peer of the environment. -/
def OwnName (env : Env) (p : PeerControl) : Prop := p.localId = env.peerId

theorem newPeer_localId (env : Env) (c : ℕ) (remoteId : String) (w : World) :
    (newPeer env c remoteId w).1.localId = (w.controls c).peerName := by
  unfold newPeer PeerControl.initializePeer
  dsimp only
  split_ifs <;> rfl

theorem NewPeer.localId {G : Guard} {p : PeerControl} (h : NewPeer env G w c p) :
    p.localId = (w.controls c).peerName := by
  cases h with
  | offer remoteId ok asked => exact newPeer_localId env c remoteId w
  | answer remoteId sdp origin ok from_ => exact newPeer_localId env c remoteId w

theorem tick_ownName {G : Guard} (h : Tick env G w w') (hw : Sound env w)
    (hp : Everywhere (OwnName env) w) : Everywhere (OwnName env) w' := by
  cases h with
  | call h => exact hp.same h.same
  | dequeued m queue h => exact hp
  | received c message origin thread ok => exact hp
  | callback x cb hx alive started report h =>
    have hid : OwnName env (logged ((w.insts x).callback cb)) :=
      (PeerControl.callback_keeps _ cb).localId.trans (hp x hx)
    exact (hp.setInst hid).same h.same
  | answered c k x sdp origin h from_ =>
    have hx : OwnName env (w.insts x) := hp x (hw.bound c k x h)
    rw [(hw.entries c k x h).live.receiveAnswerSdp_eq]
    exact hp.setInst hx
  | candidate c k x sdpMid sdpMlineIndex candidate h =>
    have hx : OwnName env (w.insts x) := hp x (hw.bound c k x h)
    rw [(hw.entries c k x h).live.addIceCandidate_eq]
    exact hp.setInst hx
  | closed c k x code h calls =>
    have hx : OwnName env (w.insts x) := hp x (hw.bound c k x h)
    have hid : OwnName env (logged (((w.insts x).close code (env.onRelease x)).1,
        removeEffects env x code w)) :=
      ((hw.entries c k x h).live.close_same code (env.onRelease x)).localId.trans hx
    have he : Everywhere (OwnName env)
        (w.modifyControl c fun q => { q with peers := q.peers.erase k }) := hp
    exact (he.setInst hid).same calls.same
  | registered c p ids thread new starts =>
    exact hp.newInst (new.localId.trans (hw.named c thread))
  | rejected c remoteId thread failed =>
    exact hp.newInst ((newPeer_localId env c remoteId w).trans (hw.named c thread))

theorem ownName_releases (hp : Everywhere (OwnName env) w) :
    Everywhere (OwnName env) w.releaseControls.releaseInsts := by
  intro x hx
  by_cases hlost : w.releaseControls.Lost x
  · rw [releaseInsts_lost hlost]
    exact hp x hx
  · rw [releaseInsts_stays hlost]
    exact hp x hx

theorem ownName_run (env : Env) (as : List Action) :
    Everywhere (OwnName env) (run (World.step env) init as) :=
  run_of_ticks (fun x hx => by cases hx) tick_ownName ownName_releases as

/-! ### What is emitted -/

/-- What the observer and the handler of an event add to the log. -/
def reports (env : Env) (c : ℕ) (session source : Option ℕ) (e : Event) : List Obs :=
  .observer c source e :: if env.registered e.name then [.handler session source e] else []

/-- What a command adds to the log; without a signal connection there is none. -/
def sends (opened : Option Bool) (source : Option ℕ) (channel command : String) (data : Json) :
    List SentCommand :=
  opened.toList.map fun opened => ⟨source, channel, command, data, opened && command != ""⟩

/-- The observations of an effect of instance `x`. -/
def effectObs (env : Env) (c : ℕ) (session : Option ℕ) (x : ℕ) (f : Effect) : List Obs :=
  f.event?.toList.flatMap (reports env c session (some x))

/-- The commands of an effect of instance `x`. -/
def effectCommands (opened : Option Bool) (x : ℕ) : Effect → List SentCommand
  | .sendCommand peerId command data => sends opened (some x) peerId command data
  | _ => []

/-- The logs grow by the given items; the queue may grow too, and nothing else
happens. -/
structure Emits (os : List Obs) (cs : List SentCommand) (w w' : World) : Prop where
  obs : w'.obs = w.obs ++ os
  commands : w'.commands = w.commands ++ cs
  controls : w'.controls = w.controls
  insts : w'.insts = w.insts
  nextInst : w'.nextInst = w.nextInst
  control : w'.control = w.control
  opened : w'.signal.map Signal.opened = w.signal.map Signal.opened
  fault : w'.fault = w.fault

theorem Emits.refl (w : World) : Emits [] [] w w := by
  constructor <;> simp

theorem Emits.trans {os os' : List Obs} {cs cs' : List SentCommand} (h : Emits os cs w w')
    (h' : Emits os' cs' w' w'') : Emits (os ++ os') (cs ++ cs') w w'' where
  obs := by rw [h'.obs, h.obs, List.append_assoc]
  commands := by rw [h'.commands, h.commands, List.append_assoc]
  controls := h'.controls.trans h.controls
  insts := h'.insts.trans h.insts
  nextInst := h'.nextInst.trans h.nextInst
  control := h'.control.trans h.control
  opened := h'.opened.trans h.opened
  fault := h'.fault.trans h.fault

theorem sendCommand_emits (source : Option ℕ) (channel command : String) (data : Json) (w : World) :
    Emits [] (sends (w.signal.map Signal.opened) source channel command data) w
      (w.sendCommand source channel command data) := by
  cases hs : w.signal with
  | none =>
    simp only [sendCommand, hs]
    exact .refl w
  | some s =>
    have hlog : (w.sendCommand source channel command data).commands =
        w.commands ++ sends (some s.opened) source channel command data := by
      simp only [sendCommand, hs, sends, Option.toList_some, List.map_cons, List.map_nil,
        Signal.sendCommand_sent]
      by_cases hc : command = "" <;> cases s.opened <;> simp [hc]
    refine ⟨by simp [sendCommand, hs], hlog, ?_, ?_, ?_, ?_, ?_, ?_⟩ <;>
      simp [sendCommand, hs, Signal.sendCommand_opened]

theorem callEventHandler_emits (env : Env) (o : InitOutcome) (source : Option ℕ) (e : Event)
    (w : World) :
    Emits (if env.registered e.name then [.handler w.control source e] else []) [] w
      (w.callEventHandler (env.calm o) source e) := by
  by_cases h : env.registered e.name = true
  · simp only [callEventHandler, Env.calm, h, if_true, List.foldl_nil]
    constructor <;> simp
  · simp only [callEventHandler, Env.calm, h]
    exact .refl w

/-- An event of a remote peer is reported once to the observer and to the handler. -/
theorem observe_emits (env : Env) (o : InitOutcome) (source : Option ℕ) {e : Event}
    (running : w.fault = none) (hset : (w.controls c).observer = true) (hopen : ∀ id, e ≠ .open id)
    (hlocal : ¬ e.Closes env.peerId) :
    Emits (reports env c w.control source e) [] w (w.observe (env.calm o) c source e) := by
  have hr : w.fault.isSome = false := by simp [running]
  have hobs : Emits [.observer c source e] [] w
      { w with obs := w.obs ++ [.observer c source e] } := by
    constructor <;> simp
  have hcall := hobs.trans (callEventHandler_emits env o source e
    { w with obs := w.obs ++ [.observer c source e] })
  simp only [observe, hr, hset, Bool.false_eq_true, if_true, if_false]
  cases e with
  | «open» id => exact absurd rfl (hopen id)
  | close peerId code desc =>
    have hid : peerId ≠ (env.calm o).peerId := hlocal
    simp only [notify, peerOnClose, if_neg hid]
    exact hcall
  | connect peerId => exact hcall
  | message peerId data => exact hcall
  | writable peerId => exact hcall

/-- An object can be heard: its control has a thread and an observer. -/
structure Heard (c : ℕ) (x : ℕ) (w : World) : Prop where
  control : (w.insts x).control = c
  observer : (w.controls c).observer = true
  thread : (w.controls c).thread = true
  standing : (w.controls c).destroyed = false

theorem Heard.emits {os : List Obs} {cs : List SentCommand} {x : ℕ} (h : Heard c x w)
    (he : Emits os cs w w') : Heard c x w' where
  control := by rw [he.insts]; exact h.control
  observer := by rw [he.controls]; exact h.observer
  thread := by rw [he.controls]; exact h.thread
  standing := by rw [he.controls]; exact h.standing

theorem perform_emits (env : Env) (o : InitOutcome) {x : ℕ} {f : Effect} (h : Heard c x w)
    (running : w.fault = none) (hok : f.Ok (w.insts x)) (hid : (w.insts x).remoteId ≠ env.peerId) :
    Emits (effectObs env c w.control x f) (effectCommands (w.signal.map Signal.opened) x f) w
      (w.perform (env.calm o) x f) := by
  have hr : w.fault.isSome = false := by simp [running]
  have hevent : ∀ e, f.event? = some e →
      Emits (reports env c w.control (some x) e) [] w
        (w.observeIfSet (env.calm o) c (some x) e) := by
    intro e he
    rw [observeIfSet, if_pos h.observer]
    refine observe_emits env o (some x) running h.observer ?_ fun hc => ?_
    · rintro id rfl
      cases f <;> cases he
    · exact hid (event_closes he hc hok).symm
  simp only [perform, hr, h.control, h.standing, Bool.false_eq_true, if_false]
  cases f with
  | sendCommand peerId command data => exact sendCommand_emits _ _ _ _ w
  | closePeer peerId code =>
    simp only [closePeerQueued, post, h.thread, if_true]
    constructor <;> simp [effectObs, effectCommands, Effect.event?]
  | onPeerConnect peerId => simpa [effectObs, effectCommands, Effect.event?] using hevent _ rfl
  | onPeerClose peerId code =>
    simpa [effectObs, effectCommands, Effect.event?, onPeerClose] using hevent _ rfl
  | onPeerMessage peerId data =>
    simpa [effectObs, effectCommands, Effect.event?] using hevent _ rfl
  | onPeerWritable peerId => simpa [effectObs, effectCommands, Effect.event?] using hevent _ rfl
  | crash f => exact hok.elim
  | removed => exact .refl w
  | closing => exact .refl w
  | opened state => exact .refl w
  | answered origin => exact .refl w

theorem performs_emits (env : Env) (o : InitOutcome) {x : ℕ} {fs : List Effect} (h : Heard c x w)
    (running : w.fault = none) (hok : ∀ f ∈ fs, f.Ok (w.insts x))
    (hid : (w.insts x).remoteId ≠ env.peerId) :
    Emits (fs.flatMap (effectObs env c w.control x))
      (fs.flatMap (effectCommands (w.signal.map Signal.opened) x)) w
      (fs.foldl (perform (env.calm o) x) w) := by
  induction fs generalizing w with
  | nil => exact .refl w
  | cons f fs ih =>
    have he := perform_emits env o h running (hok f List.mem_cons_self) hid
    have hrest := ih (h.emits he) (he.fault.trans running)
      (fun g hg => he.insts ▸ hok g (List.mem_cons_of_mem f hg)) (he.insts ▸ hid)
    rw [he.control, he.opened] at hrest
    exact he.trans hrest

/-! ### Views and reactions -/

/-- Everything a command about one peer depends on. -/
structure View where
  /-- The entry of the peer, with the number of its object. -/
  entry : Option (ℕ × PeerControl)
  peerName : String
  session : Option ℕ
  /-- The signal connection is open, if there is one. -/
  opened : Option Bool

def view (c : ℕ) (id : String) (w : World) : View where
  entry := ((w.controls c).peers.find? id).map fun x => (x, w.insts x)
  peerName := (w.controls c).peerName
  session := w.control
  opened := w.signal.map Signal.opened

/-- Everything a command about one peer does. -/
structure Reaction where
  /-- The object that is registered afterwards. -/
  entry : Option PeerControl
  /-- An object that is replaced. -/
  changed : Option (ℕ × PeerControl) := none
  /-- An object that is made. -/
  fresh : Option PeerControl := none
  obs : List Obs := []
  commands : List SentCommand := []

namespace Reaction

def revise (r : Reaction) (insts : ℕ → PeerControl) : ℕ → PeerControl :=
  match r.changed with
  | none => insts
  | some (x, p) => Function.update insts x p

/-- The reaction with more emitted at its end. -/
def emit (r : Reaction) (os : List Obs) (cs : List SentCommand) : Reaction :=
  { r with obs := r.obs ++ os, commands := r.commands ++ cs }

end Reaction

namespace View

variable (env : Env) (o : InitOutcome) (c : ℕ) (v : View)

def idle : Reaction := { entry := v.entry.map Prod.snd }

/-- The result of an operation replaces object `x`, and its effects are performed. -/
def operate (x : ℕ) (r : PeerControl × List Effect) : Reaction where
  entry := some (logged r)
  changed := some (x, logged r)
  obs := r.2.flatMap (effectObs env c v.session x)
  commands := r.2.flatMap (effectCommands v.opened x)

def closePeer (id : String) (code : CloseCode) : Reaction :=
  match v.entry with
  | none => v.idle
  | some (x, p) =>
    let r := p.close code (env.onRelease x)
    { v.operate env c x (r.1, .removed :: r.2) with entry := none }.emit []
      (sends v.opened none id "leavechannel" (.obj [("name", .str id)]))

def receiveOfferSdp (id : String) (data : Json) (origin : Option ℕ) : Reaction :=
  match env.rtc.getStringFromJsonObject data "sdp" with
  | none => v.idle
  | some sdp =>
    let r := (PeerControl.new c v.peerName id).initializePeer o
    if r.2 then
      let p := r.1.receiveOfferSdp sdp origin
      { entry := some ((v.entry.map Prod.snd).getD p), fresh := some p }
    else
      { entry := v.entry.map Prod.snd
        fresh := some r.1
        obs := reports env c v.session none (.close id .abnormal "") }

def receiveAnswerSdp (data : Json) (origin : Option ℕ) : Reaction :=
  match env.rtc.getStringFromJsonObject data "sdp", v.entry with
  | some sdp, some (x, p) => v.operate env c x (p.receiveAnswerSdp sdp origin)
  | _, _ => v.idle

def addIceCandidate (data : Json) : Reaction :=
  match env.rtc.getStringFromJsonObject data "sdp_mid",
      env.rtc.getIntFromJsonObject data "sdp_mline_index",
      env.rtc.getStringFromJsonObject data "candidate", v.entry with
  | some sdpMid, some sdpMlineIndex, some candidate, some (x, p) =>
    v.operate env c x (p.addIceCandidate sdpMid sdpMlineIndex candidate)
  | _, _, _, _ => v.idle

/-- The reaction to one of the commands about peer `id`. -/
def react (command id : String) (data : Json) (origin : Option ℕ) : Reaction :=
  if command = "peerclosed" then v.closePeer env c id .normal
  else if command = "offersdp" then v.receiveOfferSdp env o c id data origin
  else if command = "answersdp" then v.receiveAnswerSdp env c data origin
  else v.addIceCandidate env c data

end View

/-- The second world is the first after the reaction of control `c` about `id`. -/
structure Handles (c : ℕ) (id : String) (r : Reaction) (w w' : World) : Prop where
  entry : ((w'.controls c).peers.find? id).map w'.insts = r.entry
  place : ∀ x, (w'.controls c).peers.find? id = some x →
    (w.controls c).peers.find? id = some x ∨ x = w.nextInst ∧ r.fresh.isSome = true
  others : ∀ k, k ≠ id → (w'.controls c).peers.find? k = (w.controls c).peers.find? k
  changed : ∀ x p, r.changed = some (x, p) → (w.controls c).peers.find? id = some x
  insts : ∀ x, x < w.nextInst → w'.insts x = r.revise w.insts x
  fresh : ∀ p, r.fresh = some p → w'.insts w.nextInst = p
  nextInst : w'.nextInst = w.nextInst + r.fresh.toList.length
  obs : w'.obs = w.obs ++ r.obs
  commands : w'.commands = w.commands ++ r.commands
  /-- Nothing else changes in the control. -/
  rest : { w'.controls c with peers := ∅ } = { w.controls c with peers := ∅ }
  control : w'.control = w.control
  opened : w'.signal.map Signal.opened = w.signal.map Signal.opened
  fault : w'.fault = w.fault

/-- A projection of the control that does not read `peers_`. -/
theorem Handles.keeps {α : Type*} {id : String} {r : Reaction} (h : Handles c id r w w')
    (f : Control → α) (hf : ∀ (q : Control) m, f { q with peers := m } = f q) :
    f (w'.controls c) = f (w.controls c) := by
  calc f (w'.controls c) = f { w'.controls c with peers := ∅ } := (hf _ _).symm
    _ = f { w.controls c with peers := ∅ } := congrArg f h.rest
    _ = f (w.controls c) := hf _ _

theorem Handles.emits {id : String} {r : Reaction} {os : List Obs} {cs : List SentCommand}
    (h : Handles c id r w w') (he : Emits os cs w' w'') : Handles c id (r.emit os cs) w w'' where
  entry := by rw [he.controls, he.insts]; exact h.entry
  place x hx := by rw [he.controls] at hx; exact h.place x hx
  others k hk := by rw [he.controls]; exact h.others k hk
  changed := h.changed
  insts x hx := by rw [he.insts]; exact h.insts x hx
  fresh := by rw [he.insts]; exact h.fresh
  nextInst := he.nextInst.trans h.nextInst
  obs := by rw [he.obs, h.obs, List.append_assoc]; rfl
  commands := by rw [he.commands, h.commands, List.append_assoc]; rfl
  rest := by rw [he.controls]; exact h.rest
  control := he.control.trans h.control
  opened := he.opened.trans h.opened
  fault := he.fault.trans h.fault

theorem idle_handles (c : ℕ) (id : String) (w : World) :
    Handles c id (view c id w).idle w w where
  entry := by simp only [View.idle, view, Option.map_map]; rfl
  place _ hx := Or.inl hx
  others _ _ := rfl
  changed _ _ h := by cases h
  insts _ _ := rfl
  fresh _ h := by cases h
  nextInst := rfl
  obs := (List.append_nil _).symm
  commands := (List.append_nil _).symm
  rest := rfl
  control := rfl
  opened := rfl
  fault := rfl

theorem setInst_handles {id : String} {x : ℕ} (hx : (w.controls c).peers.find? id = some x)
    (p : PeerControl) :
    Handles c id { entry := some p, changed := some (x, p) } w (w.setInst x p) where
  entry := by rw [setInst_controls, hx, Option.map_some, setInst_insts_self]
  place _ hx := Or.inl hx
  others _ _ := rfl
  changed y q h := by cases h; exact hx
  insts _ _ := rfl
  fresh _ h := by cases h
  nextInst := rfl
  obs := (List.append_nil _).symm
  commands := (List.append_nil _).symm
  rest := rfl
  control := rfl
  opened := rfl
  fault := rfl

theorem newInst_handles {id : String}
    (hb : ∀ x, (w.controls c).peers.find? id = some x → x < w.nextInst) (p : PeerControl) :
    Handles c id { entry := (view c id w).entry.map Prod.snd, fresh := some p } w
      (w.newInst p) where
  entry := by
    have hctl : (w.newInst p).controls = w.controls := rfl
    rw [hctl]
    cases hx : (w.controls c).peers.find? id with
    | none => simp [view, hx]
    | some x => simp [view, hx, newInst_insts_lt (hb x hx)]
  place _ hx := Or.inl hx
  others _ _ := rfl
  changed _ _ h := by cases h
  insts x hx := newInst_insts_lt hx
  fresh q h := by cases h; exact newInst_insts_self p w
  nextInst := rfl
  obs := (List.append_nil _).symm
  commands := (List.append_nil _).symm
  rest := rfl
  control := rfl
  opened := rfl
  fault := rfl

/-- The registry may change at the handled id. -/
theorem Handles.modifyPeers {id : String} {r : Reaction} (h : Handles c id r w w')
    (g : OrderedMap String ℕ → OrderedMap String ℕ)
    (hg : ∀ m k, k ≠ id → (g m).find? k = m.find? k)
    (hplace : ∀ x, (g (w'.controls c).peers).find? id = some x →
      (w'.controls c).peers.find? id = some x ∨ x = w.nextInst ∧ r.fresh.isSome = true) :
    Handles c id { r with entry := ((g (w'.controls c).peers).find? id).map w'.insts } w
      (w'.modifyControl c fun k => { k with peers := g k.peers }) where
  entry := by rw [modifyControl_controls, if_pos rfl]; rfl
  place x hx := by
    rw [modifyControl_controls, if_pos rfl] at hx
    rcases hplace x hx with hx | hx
    · exact h.place x hx
    · exact Or.inr hx
  others k hk := by
    rw [modifyControl_controls, if_pos rfl, ← h.others k hk]
    exact hg _ k hk
  changed := h.changed
  insts := h.insts
  fresh := h.fresh
  nextInst := h.nextInst
  obs := h.obs
  commands := h.commands
  rest := by rw [modifyControl_controls, if_pos rfl]; exact h.rest
  control := h.control
  opened := h.opened
  fault := h.fault

theorem register_handles {p : PeerControl}
    (hb : ∀ x, (w.controls c).peers.find? p.remoteId = some x → x < w.nextInst) :
    Handles c p.remoteId
      { entry := some (((view c p.remoteId w).entry.map Prod.snd).getD p), fresh := some p } w
      (w.register c p) := by
  have hplace : ∀ x, (((w.newInst p).controls c).peers.insert p.remoteId w.nextInst).find?
      p.remoteId = some x → ((w.newInst p).controls c).peers.find? p.remoteId = some x ∨
        x = w.nextInst ∧ (some p).isSome = true := by
    intro x hx
    rw [OrderedMap.find?_insert, if_pos rfl] at hx
    cases hy : ((w.newInst p).controls c).peers.find? p.remoteId with
    | none => exact Or.inr ⟨by simpa [hy] using hx.symm, rfl⟩
    | some y => exact Or.inl (by simpa [hy] using hx)
  have h := (newInst_handles hb p).modifyPeers (fun m => m.insert p.remoteId w.nextInst)
    (fun m k hk => by rw [OrderedMap.find?_insert, if_neg hk]) hplace
  have hentry : (((w.newInst p).controls c).peers.insert p.remoteId w.nextInst).find? p.remoteId =
      some (((w.controls c).peers.find? p.remoteId).getD w.nextInst) := by
    rw [OrderedMap.find?_insert, if_pos rfl]
    rfl
  have hkept :
      (some (((w.controls c).peers.find? p.remoteId).getD w.nextInst)).map (w.newInst p).insts =
      some (((view c p.remoteId w).entry.map Prod.snd).getD p) := by
    cases hx : (w.controls c).peers.find? p.remoteId with
    | none => simp [view, hx]
    | some x => simp [view, hx, newInst_insts_lt (hb x hx)]
  rw [hentry, hkept] at h
  exact h

theorem removePeer_handles (env : Env) {id : String} {x : ℕ}
    (hx : (w.controls c).peers.find? id = some x) (code : CloseCode) :
    Handles c id
      { entry := none
        changed := some (x, logged (((w.insts x).close code (env.onRelease x)).1,
          removeEffects env x code w)) } w
      (w.removePeer env c id x code) := by
  have h := (setInst_handles hx (logged (((w.insts x).close code (env.onRelease x)).1,
    removeEffects env x code w))).modifyPeers (fun m => m.erase id)
    (fun m k hk => by rw [OrderedMap.find?_erase, if_neg hk])
    (fun y hy => by rw [OrderedMap.find?_erase, if_pos rfl] at hy; cases hy)
  rw [OrderedMap.find?_erase, if_pos rfl] at h
  exact h

/-! ### The handlers react -/

/-- Control `c` can handle commands about `id`. -/
structure Attends (env : Env) (c : ℕ) (id : String) (w : World) : Prop where
  running : w.fault = none
  observer : (w.controls c).observer = true
  bound : ∀ x, (w.controls c).peers.find? id = some x → x < w.nextInst
  entry : ∀ x, (w.controls c).peers.find? id = some x → Entry (w.insts x) c id
  ownName : ∀ x, (w.controls c).peers.find? id = some x → OwnName env (w.insts x)
  heard : ∀ x, (w.controls c).peers.find? id = some x → Heard c x w

section

variable {id : String}

theorem view_entry_none (hx : (w.controls c).peers.find? id = none) :
    (view c id w).entry = none := by
  simp [view, hx]

theorem view_entry_some {x : ℕ} (hx : (w.controls c).peers.find? id = some x) :
    (view c id w).entry = some (x, w.insts x) := by
  simp [view, hx]

theorem operate_handles (h : Attends env c id w) (hid : id ≠ env.peerId) (o : InitOutcome) {x : ℕ}
    (hx : (w.controls c).peers.find? id = some x) {r : PeerControl × List Effect}
    (hs : PeerControl.SameIdentity (w.insts x) (logged r)) (hok : ∀ f ∈ r.2, f.Ok (w.insts x)) :
    Handles c id ((view c id w).operate env c x r) w (w.runPeer (env.calm o) x r) := by
  have he := h.entry x hx
  have hself : (w.setInst x (logged r)).insts x = logged r := setInst_insts_self _ _ _
  have hheard : Heard c x (w.setInst x (logged r)) := by
    refine ⟨?_, h.observer, (h.heard x hx).thread, (h.heard x hx).standing⟩
    rw [hself, hs.control]
    exact he.control
  have hremote : ((w.setInst x (logged r)).insts x).remoteId ≠ env.peerId := by
    rw [hself, hs.remoteId, he.remoteId]
    exact hid
  have hok' : ∀ f ∈ r.2, f.Ok ((w.setInst x (logged r)).insts x) := by
    rw [hself]
    exact fun f hf => hs.ok_iff.mpr (hok f hf)
  exact (setInst_handles hx (logged r)).emits (performs_emits env o hheard h.running hok' hremote)

theorem closePeer_handles (h : Attends env c id w) (hid : id ≠ env.peerId) (o : InitOutcome)
    (code : CloseCode) :
    Handles c id ((view c id w).closePeer env c id code) w (w.closePeer (env.calm o) c code id) := by
  cases hx : (w.controls c).peers.find? id with
  | none =>
    simp only [closePeer, View.closePeer, hx, view_entry_none hx]
    exact idle_handles c id w
  | some x =>
    have he := h.entry x hx
    obtain ⟨hs, hok⟩ := removePeer_effects env he.live c id code
    have hremoved := removePeer_handles env hx code
    have hheard : Heard c x (w.removePeer env c id x code) :=
      ⟨hs.control.trans he.control, (hremoved.keeps (·.observer) fun _ _ => rfl).trans h.observer,
        (hremoved.keeps (·.thread) fun _ _ => rfl).trans (h.heard x hx).thread,
        (hremoved.keeps (·.destroyed) fun _ _ => rfl).trans (h.heard x hx).standing⟩
    have hremote : ((w.removePeer env c id x code).insts x).remoteId ≠ env.peerId := by
      rw [hs.remoteId, he.remoteId]
      exact hid
    have hemits := performs_emits env o hheard h.running hok hremote
    have hleave := hemits.trans (sendCommand_emits none id "leavechannel"
      (.obj [("name", .str id)]) _)
    rw [hemits.opened] at hleave
    simp only [closePeer, View.closePeer, hx, view_entry_some hx]
    exact hremoved.emits hleave

theorem receiveOfferSdp_handles (h : Attends env c id w) (hid : id ≠ env.peerId) (o : InitOutcome)
    (data : Json) (origin : Option ℕ) :
    Handles c id ((view c id w).receiveOfferSdp env o c id data origin) w
      (w.receiveOfferSdp (env.calm o) c id data origin) := by
  have hrtc : (env.calm o).rtc = env.rtc := rfl
  have hnew : newPeer (env.calm o) c id w =
      (PeerControl.new c (view c id w).peerName id).initializePeer o := rfl
  unfold World.receiveOfferSdp View.receiveOfferSdp
  rw [hrtc]
  cases env.rtc.getStringFromJsonObject data "sdp" with
  | none => exact idle_handles c id w
  | some sdp =>
    dsimp only
    rw [← hnew]
    by_cases ok : o.ok = true
    · have hok : newPeer (env.calm o) c id w = _ := newPeer_ok ok
      rw [if_pos (by rw [hok]), if_pos (by rw [hok])]
      have hremote :
          ((newPeer (env.calm o) c id w).1.receiveOfferSdp sdp origin).remoteId = id := by
        rw [hok]
        rfl
      generalize (newPeer (env.calm o) c id w).1.receiveOfferSdp sdp origin = p at hremote
      subst hremote
      exact register_handles h.bound
    · have failed : ((env.calm o).initOutcome w.nextInst).ok = false :=
        Bool.eq_false_iff.mpr ok
      have hfailed : newPeer (env.calm o) c id w = _ := newPeer_failed failed
      rw [if_neg (by rw [hfailed]; simp), if_neg (by rw [hfailed]; simp),
        reject_eq h.observer failed]
      have hemits := observe_emits env o (w := w.newInst (newPeer (env.calm o) c id w).1) none
        (e := .close id .abnormal "") h.running h.observer (by simp) hid
      exact (newInst_handles h.bound _).emits hemits

theorem receiveAnswerSdp_handles (h : Attends env c id w) (hid : id ≠ env.peerId) (o : InitOutcome)
    (data : Json) (origin : Option ℕ) :
    Handles c id ((view c id w).receiveAnswerSdp env c data origin) w
      (w.receiveAnswerSdp (env.calm o) c id data origin) := by
  have hrtc : (env.calm o).rtc = env.rtc := rfl
  unfold World.receiveAnswerSdp View.receiveAnswerSdp
  rw [hrtc]
  cases env.rtc.getStringFromJsonObject data "sdp" with
  | none => exact idle_handles c id w
  | some sdp =>
    cases hx : (w.controls c).peers.find? id with
    | none =>
      simp only [view_entry_none hx]
      exact idle_handles c id w
    | some x =>
      simp only [view_entry_some hx]
      refine operate_handles h hid o hx ?_ ?_
      · rw [(h.entry x hx).live.receiveAnswerSdp_eq]
        exact ⟨rfl, rfl, rfl, rfl, rfl, rfl⟩
      · rw [(h.entry x hx).live.receiveAnswerSdp_eq]
        simp [Effect.Ok]

theorem addIceCandidate_handles (h : Attends env c id w) (hid : id ≠ env.peerId) (o : InitOutcome)
    (data : Json) :
    Handles c id ((view c id w).addIceCandidate env c data) w
      (w.addIceCandidate (env.calm o) c id data) := by
  have hrtc : (env.calm o).rtc = env.rtc := rfl
  unfold World.addIceCandidate View.addIceCandidate
  rw [hrtc]
  cases env.rtc.getStringFromJsonObject data "sdp_mid" with
  | none => exact idle_handles c id w
  | some sdpMid =>
  cases env.rtc.getIntFromJsonObject data "sdp_mline_index" with
  | none => exact idle_handles c id w
  | some sdpMlineIndex =>
  cases env.rtc.getStringFromJsonObject data "candidate" with
  | none => exact idle_handles c id w
  | some candidate =>
    cases hx : (w.controls c).peers.find? id with
    | none =>
      simp only [view_entry_none hx]
      exact idle_handles c id w
    | some x =>
      simp only [view_entry_some hx]
      refine operate_handles h hid o hx ?_ ?_
      · rw [(h.entry x hx).live.addIceCandidate_eq]
        exact ⟨rfl, rfl, rfl, rfl, rfl, rfl⟩
      · rw [(h.entry x hx).live.addIceCandidate_eq]
        simp

/-- A command about a remote peer does what the view of this peer says. -/
theorem onCommandReceived_handles (h : Attends env c id w) (hid : id ≠ env.peerId)
    (o : InitOutcome) {message data : Json} {command : String}
    (hp : parseCommand env message = some (command, id, data)) (hc : command ∈ peerCommands)
    (origin : Option ℕ) :
    Handles c id ((view c id w).react env o c command id data origin) w
      (w.onCommandReceived (env.calm o) c message origin) := by
  have hp' : parseCommand (env.calm o) message = some (command, id, data) := hp
  refine onCommandReceived_peer_cases (motive := Handles c id _ w) hp' hc _ _ ?_ ?_ ?_ ?_
  · rintro rfl
    simp only [View.react, String.reduceEq, if_true, if_false]
    exact receiveOfferSdp_handles h hid o data origin
  · rintro rfl
    simp only [View.react, String.reduceEq, if_true, if_false]
    exact receiveAnswerSdp_handles h hid o data origin
  · rintro rfl
    simp only [View.react, String.reduceEq, if_false]
    exact addIceCandidate_handles h hid o data
  · rintro rfl
    simp only [View.react, if_true]
    exact closePeer_handles h hid o .normal

end

/-! ### What a reaction is about -/

/-- The reaction speaks of peer `id` only, apart from events of the local id. -/
structure Reaction.About (env : Env) (id : String) (r : Reaction) : Prop where
  fresh : ∀ p, r.fresh = some p → p.remoteId = id
  obs : ∀ o ∈ r.obs, ∀ e, o.event? = some e → e.peerId = id ∨ e.peerId = env.peerId
  commands : ∀ s ∈ r.commands, s.channel = id

theorem idle_about (env : Env) (id : String) (v : View) : v.idle.About env id :=
  ⟨fun _ h => (by cases h), fun _ h => (by cases h), fun _ h => (by cases h)⟩

theorem mem_reports {session source : Option ℕ} {e e' : Event} {o : Obs}
    (h : o ∈ reports env c session source e) (he : o.event? = some e') : e' = e := by
  unfold reports at h
  rcases List.mem_cons.mp h with rfl | h
  · exact (Option.some.inj he).symm
  · split_ifs at h
    · obtain rfl := List.mem_singleton.mp h
      exact (Option.some.inj he).symm
    · cases h

theorem mem_sends {opened : Option Bool} {source : Option ℕ} {channel command : String}
    {data : Json} {s : SentCommand} (h : s ∈ sends opened source channel command data) :
    s.channel = channel := by
  obtain ⟨opened, -, rfl⟩ := List.mem_map.mp h
  rfl

theorem operate_about {p : PeerControl} {r : PeerControl × List Effect} (hok : ∀ f ∈ r.2, f.Ok p)
    (hp : OwnName env p) (c x : ℕ) (v : View) : (v.operate env c x r).About env p.remoteId where
  fresh _ h := by cases h
  obs o ho e he := by
    obtain ⟨f, hf, ho⟩ := List.mem_flatMap.mp ho
    obtain ⟨e', he', ho⟩ := List.mem_flatMap.mp ho
    obtain rfl := mem_reports ho he
    rcases (hok f hf).event_peerId (Option.mem_toList.mp he') with h | h
    · exact Or.inl h
    · exact Or.inr (h.trans hp)
  commands s hs := by
    obtain ⟨f, hf, hs⟩ := List.mem_flatMap.mp hs
    cases f with
    | sendCommand peerId command data => exact (mem_sends hs).trans (hok _ hf).1
    | _ => cases hs

theorem Reaction.About.emit {id : String} {r : Reaction} (h : r.About env id)
    {cs : List SentCommand} (hcs : ∀ s ∈ cs, s.channel = id) : (r.emit [] cs).About env id where
  fresh := h.fresh
  obs := by
    intro o ho
    rw [Reaction.emit, List.append_nil] at ho
    exact h.obs o ho
  commands s hs := (List.mem_append.mp hs).elim (h.commands s) (hcs s)

section

variable {id : String}

theorem Attends.entry_eq (h : Attends env c id w) {x : ℕ} {p : PeerControl}
    (hv : (view c id w).entry = some (x, p)) :
    p.remoteId = id ∧ OwnName env p ∧ p.Live := by
  simp only [view, Option.map_eq_some_iff, Prod.mk.injEq] at hv
  obtain ⟨y, hy, rfl, rfl⟩ := hv
  exact ⟨(h.entry y hy).remoteId, h.ownName y hy, (h.entry y hy).live⟩

theorem receiveOfferSdp_about (env : Env) (o : InitOutcome) (c : ℕ) (id : String) (data : Json)
    (origin : Option ℕ) (v : View) : (v.receiveOfferSdp env o c id data origin).About env id := by
  have hid : ((PeerControl.new c v.peerName id).initializePeer o).1.remoteId = id := by
    unfold PeerControl.initializePeer
    dsimp only
    split_ifs <;> rfl
  unfold View.receiveOfferSdp
  cases env.rtc.getStringFromJsonObject data "sdp" with
  | none => exact idle_about env id v
  | some sdp =>
    dsimp only
    split_ifs
    · refine ⟨fun p hp => ?_, fun _ h => (by cases h), fun _ h => (by cases h)⟩
      obtain rfl := Option.some.inj hp
      exact hid
    · refine ⟨fun p hp => ?_, fun o ho e he => Or.inl ?_, fun _ h => (by cases h)⟩
      · obtain rfl := Option.some.inj hp
        exact hid
      · rw [mem_reports ho he]
        rfl

theorem react_about (h : Attends env c id w) (o : InitOutcome) (command : String) (data : Json)
    (origin : Option ℕ) :
    ((view c id w).react env o c command id data origin).About env id := by
  unfold View.react
  split_ifs
  · unfold View.closePeer
    cases hv : (view c id w).entry with
    | none => exact idle_about env id _
    | some e =>
      obtain ⟨x, p⟩ := e
      obtain ⟨rfl, hname, hlive⟩ := h.entry_eq hv
      have hok : ∀ f ∈ .removed :: (p.close .normal (env.onRelease x)).2, f.Ok p := by
        intro f hf
        rcases List.mem_cons.mp hf with rfl | hf
        · trivial
        · exact hlive.close_ok .normal _ f hf
      have ha := operate_about (r := ((p.close .normal (env.onRelease x)).1,
        .removed :: (p.close .normal (env.onRelease x)).2)) hok hname c x (view c p.remoteId w)
      dsimp only
      apply Reaction.About.emit
      · exact ⟨ha.fresh, ha.obs, ha.commands⟩
      · exact fun s hs => mem_sends hs
  · exact receiveOfferSdp_about env o c id data origin _
  · unfold View.receiveAnswerSdp
    cases env.rtc.getStringFromJsonObject data "sdp" with
    | none => exact idle_about env id _
    | some sdp =>
      cases hv : (view c id w).entry with
      | none => exact idle_about env id _
      | some e =>
        obtain ⟨x, p⟩ := e
        obtain ⟨rfl, hname, hlive⟩ := h.entry_eq hv
        refine operate_about ?_ hname c x _
        rw [hlive.receiveAnswerSdp_eq]
        simp [Effect.Ok]
  · unfold View.addIceCandidate
    split
    next x p _ _ _ hv =>
      obtain ⟨rfl, hname, hlive⟩ := h.entry_eq hv
      refine operate_about ?_ hname c x _
      rw [hlive.addIceCandidate_eq]
      simp
    · exact idle_about env id _

end

/-! ### The frame -/

section

variable {p q : String} {r s : Reaction}

/-- The objects of different entries are different. -/
theorem Attends.apart (hp : Attends env c p w) (hq : Attends env c q w) (hne : p ≠ q) {x y : ℕ}
    (hx : (w.controls c).peers.find? p = some x) (hy : (w.controls c).peers.find? q = some y) :
    x ≠ y := by
  rintro rfl
  exact hne ((hp.entry x hx).remoteId.symm.trans (hq.entry x hy).remoteId)

theorem Reaction.revise_other (r : Reaction) {insts : ℕ → PeerControl} {y : ℕ}
    (h : ∀ x p, r.changed = some (x, p) → x ≠ y) : r.revise insts y = insts y := by
  unfold Reaction.revise
  cases hc : r.changed with
  | none => rfl
  | some e => exact Function.update_of_ne (h e.1 e.2 hc).symm _ _

/-- A reaction about `p` leaves the object of `q` alone. -/
theorem Handles.insts_other (h : Handles c p r w w') (hp : Attends env c p w)
    (hq : Attends env c q w) (hne : p ≠ q) {y : ℕ} (hy : (w.controls c).peers.find? q = some y) :
    w'.insts y = w.insts y := by
  rw [h.insts y (hq.bound y hy)]
  exact r.revise_other fun x p' hc => hp.apart hq hne (h.changed x p' hc) hy

theorem Handles.view_other (h : Handles c p r w w') (hp : Attends env c p w)
    (hq : Attends env c q w) (hne : p ≠ q) : view c q w' = view c q w := by
  have hentry : ((w'.controls c).peers.find? q).map (fun x => (x, w'.insts x)) =
      ((w.controls c).peers.find? q).map fun x => (x, w.insts x) := by
    rw [h.others q hne.symm]
    cases hy : (w.controls c).peers.find? q with
    | none => rfl
    | some y => rw [Option.map_some, Option.map_some, h.insts_other hp hq hne hy]
  have hname : (w'.controls c).peerName = (w.controls c).peerName :=
    h.keeps (·.peerName) fun _ _ => rfl
  simp only [view, hentry, hname, h.control, h.opened]

theorem Handles.attends_other (h : Handles c p r w w') (hp : Attends env c p w)
    (hq : Attends env c q w) (hne : p ≠ q) : Attends env c q w' := by
  have hobserver : (w'.controls c).observer = true :=
    (h.keeps (·.observer) fun _ _ => rfl).trans hq.observer
  refine ⟨h.fault.trans hq.running, hobserver, fun y hy => ?_, fun y hy => ?_, fun y hy => ?_,
    fun y hy => ?_⟩
  all_goals rw [h.others q hne.symm] at hy
  · rw [h.nextInst]
    exact Nat.lt_add_right _ (hq.bound y hy)
  · rw [h.insts_other hp hq hne hy]
    exact hq.entry y hy
  · rw [h.insts_other hp hq hne hy]
    exact hq.ownName y hy
  · have hheard := hq.heard y hy
    refine ⟨?_, hobserver, (h.keeps (·.thread) fun _ _ => rfl).trans hheard.thread,
      (h.keeps (·.destroyed) fun _ _ => rfl).trans hheard.standing⟩
    rw [h.insts_other hp hq hne hy]
    exact hheard.control

/-! ### Two reactions -/

/-- All objects that were ever made, in the order of their creation. -/
def objects (w : World) : List PeerControl := (List.range w.nextInst).map w.insts

theorem Handles.objects (h : Handles c p r w w') :
    w'.objects = (List.range w.nextInst).map (r.revise w.insts) ++ r.fresh.toList := by
  have hold : (List.range w.nextInst).map w'.insts =
      (List.range w.nextInst).map (r.revise w.insts) :=
    List.map_congr_left fun x hx => h.insts x (List.mem_range.mp hx)
  unfold World.objects
  rw [h.nextInst, ← hold]
  cases hf : r.fresh with
  | none => simp
  | some p => simp [List.range_succ, h.fresh p hf]

theorem Reaction.revise_congr (r : Reaction) {f g : ℕ → PeerControl} {x : ℕ} (h : f x = g x) :
    r.revise f x = r.revise g x := by
  unfold Reaction.revise
  cases r.changed with
  | none => exact h
  | some e => simp only [Function.update_apply, h]

theorem Reaction.revise_comm {r s : Reaction}
    (h : ∀ x p y q, r.changed = some (x, p) → s.changed = some (y, q) → x ≠ y)
    (insts : ℕ → PeerControl) : s.revise (r.revise insts) = r.revise (s.revise insts) := by
  unfold Reaction.revise
  cases hr : r.changed with
  | none => rfl
  | some e =>
    cases hs : s.changed with
    | none => rfl
    | some e' => exact Function.update_comm (h e.1 e.2 e'.1 e'.2 hr hs) _ _ _

/-- The objects after two reactions about different peers. -/
theorem Handles.objects_two (hp : Handles c p r w w') (hq : Handles c q s w' w'')
    (hb : ∀ y, (w.controls c).peers.find? q = some y → y < w.nextInst) (hne : p ≠ q) :
    w''.objects = (List.range w.nextInst).map (s.revise (r.revise w.insts)) ++
      (r.fresh.toList ++ s.fresh.toList) := by
  have hchanged : ∀ y o, s.changed = some (y, o) → y < w.nextInst := by
    intro y o hy
    refine hb y ?_
    rw [← hp.others q hne.symm]
    exact hq.changed y o hy
  have hold : (List.range w.nextInst).map (s.revise w'.insts) =
      (List.range w.nextInst).map (s.revise (r.revise w.insts)) :=
    List.map_congr_left fun x hx => s.revise_congr (hp.insts x (List.mem_range.mp hx))
  rw [hq.objects, ← List.append_assoc, ← hold, hp.nextInst]
  cases hf : r.fresh with
  | none => simp
  | some o =>
    have hnew : s.revise w'.insts w.nextInst = o := by
      rw [s.revise_other fun x p' hc => (hchanged x p' hc).ne, hp.fresh o hf]
    simp [List.range_succ, hnew]

/-- The entry of `p` is what its own command made it. -/
theorem Handles.entry_two (hp : Handles c p r w w') (hq : Handles c q s w' w'')
    (ha : Attends env c p w) (hb : Attends env c q w) (hne : p ≠ q) :
    ((w''.controls c).peers.find? p).map w''.insts = r.entry := by
  have hinsts : ∀ x, (w'.controls c).peers.find? p = some x → w''.insts x = w'.insts x := by
    intro x hx
    have hlt : x < w'.nextInst ∧ ∀ y, (w.controls c).peers.find? q = some y → y ≠ x := by
      rw [hp.nextInst]
      rcases hp.place x hx with hx | ⟨rfl, hf⟩
      · exact ⟨Nat.lt_add_right _ (ha.bound x hx), fun y hy => hb.apart ha hne.symm hy hx⟩
      · obtain ⟨o, ho⟩ := Option.isSome_iff_exists.mp hf
        exact ⟨by simp [ho], fun y hy => (hb.bound y hy).ne⟩
    rw [hq.insts x hlt.1]
    refine s.revise_other fun y o hy => hlt.2 y ?_
    rw [← hp.others q hne.symm]
    exact hq.changed y o hy
  rw [hq.others p hne, ← hp.entry]
  cases hx : (w'.controls c).peers.find? p with
  | none => rfl
  | some x => rw [Option.map_some, Option.map_some, hinsts x hx]

/-- The two worlds agree on the registry of control `c` and the objects in it, on all
the objects made for each id, and on what has been reported about the given ids and
sent to them. -/
structure SameOutcome (c : ℕ) (ids : List String) (w w' : World) : Prop where
  returns : w.fault = none ∧ w'.fault = none
  peers : ∀ k, ((w.controls c).peers.find? k).map w.insts =
    ((w'.controls c).peers.find? k).map w'.insts
  objects : ∀ k, w.objects.filter (fun o => o.remoteId = k) =
    w'.objects.filter fun o => o.remoteId = k
  events : ∀ k ∈ ids, w.obs.filter (Obs.names k) = w'.obs.filter (Obs.names k)
  commands : ∀ k ∈ ids, w.commands.filter (fun s => s.channel = k) =
    w'.commands.filter fun s => s.channel = k

theorem Reaction.About.unseen (h : r.About env p) {k : String} (hk : k ≠ p)
    (hlocal : k ≠ env.peerId) : ∀ o ∈ r.obs, Obs.names k o = false := by
  intro o ho
  cases he : o.event? with
  | none => simp [Obs.names, he]
  | some e =>
    rcases h.obs o ho e he with hid | hid
    · simpa [Obs.names, he, hid] using hk.symm
    · simpa [Obs.names, he, hid] using hlocal.symm

theorem Reaction.About.unsent (h : r.About env p) {k : String} (hk : k ≠ p) :
    ∀ s ∈ r.commands, decide (s.channel = k) = false := by
  intro s hs
  rw [h.commands s hs]
  simpa using hk.symm

theorem Reaction.About.unmade (h : r.About env p) {k : String} (hk : k ≠ p) :
    ∀ o ∈ r.fresh.toList, decide (o.remoteId = k) = false := by
  intro o ho
  rw [h.fresh o (Option.mem_toList.mp ho)]
  simpa using hk.symm

/-- Reactions about different remote peers commute. -/
theorem Handles.commute {wp wq wpq wqp : World} (hp : Handles c p r w wp)
    (hpq : Handles c q s wp wpq) (hq : Handles c q s w wq) (hqp : Handles c p r wq wqp)
    (ap : Attends env c p w) (aq : Attends env c q w) (hr : r.About env p) (hs : s.About env q)
    (hne : p ≠ q) (hpl : p ≠ env.peerId) (hql : q ≠ env.peerId)
    (hb : ∀ k y, (w.controls c).peers.find? k = some y → y < w.nextInst) :
    SameOutcome c [p, q] wpq wqp := by
  have hcomm : s.revise (r.revise w.insts) = r.revise (s.revise w.insts) :=
    Reaction.revise_comm (fun x o y o' hx hy =>
      ap.apart aq hne (hp.changed x o hx) (hq.changed y o' hy)) w.insts
  refine ⟨⟨?_, ?_⟩, fun k => ?_, fun k => ?_, fun k hk => ?_, fun k hk => ?_⟩
  · exact hpq.fault.trans (hp.fault.trans ap.running)
  · exact hqp.fault.trans (hq.fault.trans ap.running)
  · by_cases hkp : k = p
    · subst hkp
      rw [hp.entry_two hpq ap aq hne, hqp.entry]
    by_cases hkq : k = q
    · subst hkq
      rw [hq.entry_two hqp aq ap hne.symm, hpq.entry]
    rw [hpq.others k hkq, hp.others k hkp, hqp.others k hkp, hq.others k hkq]
    cases hy : (w.controls c).peers.find? k with
    | none => rfl
    | some y =>
      have hlt := hb k y hy
      have hltp : y < wp.nextInst := by rw [hp.nextInst]; omega
      have hltq : y < wq.nextInst := by rw [hq.nextInst]; omega
      rw [Option.map_some, Option.map_some, hpq.insts y hltp, hqp.insts y hltq,
        s.revise_congr (hp.insts y hlt), r.revise_congr (hq.insts y hlt), hcomm]
  · rw [hp.objects_two hpq (hb q) hne, hq.objects_two hqp (hb p) hne.symm, hcomm]
    by_cases hkp : k = p
    · exact filter_append_comm _ (Or.inr (hs.unmade (hkp ▸ hne)))
    · exact filter_append_comm _ (Or.inl (hr.unmade hkp))
  · rw [hpq.obs, hp.obs, hqp.obs, hq.obs, List.append_assoc, List.append_assoc]
    rcases List.mem_pair.mp hk with rfl | rfl
    · exact filter_append_comm _ (Or.inr (hs.unseen hne hpl))
    · exact filter_append_comm _ (Or.inl (hr.unseen hne.symm hql))
  · rw [hpq.commands, hp.commands, hqp.commands, hq.commands, List.append_assoc,
      List.append_assoc]
    rcases List.mem_pair.mp hk with rfl | rfl
    · exact filter_append_comm _ (Or.inr (hs.unsent hne))
    · exact filter_append_comm _ (Or.inl (hr.unsent hne.symm))

end

/-! ### Runs -/

theorem attends_run (env : Env) (as : List Action) {c : ℕ}
    (hf : (run (World.step env) init as).fault = none)
    (hset : ((run (World.step env) init as).controls c).observer = true) (id : String) :
    Attends env c id (run (World.step env) init as) := by
  have hw := (reached_run env as).toSound
  refine ⟨hf, hset, hw.bound c id, hw.entries c id, fun x hx => ?_, fun x hx => ?_⟩
  · exact ownName_run env as x (hw.bound c id x hx)
  · have hcontrol := (hw.entries c id x hx).control
    have hthread := hw.owners x (hw.bound c id x hx)
    rw [hcontrol] at hthread
    exact ⟨hcontrol, hset, hthread, standing_run env as c (hw.observed c hset hthread)⟩

/-- The message is one of the commands about the remote peer `id`. -/
def NamesPeer (env : Env) (id : String) (message : Json) : Prop :=
  ∃ command ∈ peerCommands, ∃ data, parseCommand env message = some (command, id, data)

/-- `OnCommandReceived` of control `c` for a command about `id`, while the handlers of the
user make no calls and `Initialize` has the outcome that belongs to the id. -/
def receive (env : Env) (outcome : String → InitOutcome) (c : ℕ) (id : String) (message : Json)
    (origin : Option ℕ) (w : World) : World :=
  w.onCommandReceived (env.calm (outcome id)) c message origin

/-- In every reachable state, a control with an observer handles two commands about
different remote peers with the same result in either order. -/
theorem commands_commute (env : Env) (as : List Action) (outcome : String → InitOutcome) (c : ℕ)
    (p q : String) (messageP messageQ : Json) (originP originQ : Option ℕ)
    (hf : (run (World.step env) init as).fault = none)
    (hset : ((run (World.step env) init as).controls c).observer = true)
    (hp : NamesPeer env p messageP) (hq : NamesPeer env q messageQ) (hne : p ≠ q)
    (hpl : p ≠ env.peerId) (hql : q ≠ env.peerId) :
    SameOutcome c [p, q]
      (((run (World.step env) init as).receive env outcome c p messageP originP).receive env
        outcome c q messageQ originQ)
      (((run (World.step env) init as).receive env outcome c q messageQ originQ).receive env
        outcome c p messageP originP) := by
  have ap := attends_run env as hf hset p
  have aq := attends_run env as hf hset q
  obtain ⟨commandP, hcp, dataP, hparseP⟩ := hp
  obtain ⟨commandQ, hcq, dataQ, hparseQ⟩ := hq
  have handleP := onCommandReceived_handles ap hpl (outcome p) hparseP hcp originP
  have handleQ := onCommandReceived_handles aq hql (outcome q) hparseQ hcq originQ
  have handlePQ := onCommandReceived_handles (handleP.attends_other ap aq hne) hql (outcome q)
    hparseQ hcq originQ
  have handleQP := onCommandReceived_handles (handleQ.attends_other aq ap hne.symm) hpl (outcome p)
    hparseP hcp originP
  -- neither command changes the view of the other peer
  rw [handleP.view_other ap aq hne] at handlePQ
  rw [handleQ.view_other aq ap hne.symm] at handleQP
  exact handleP.commute handlePQ handleQ handleQP ap aq (react_about ap _ _ _ _)
    (react_about aq _ _ _ _) hne hpl hql ((reached_run env as).bound c)

/-- The offer of "c" cannot be answered, and the connection to "b" is closed. -/
theorem commands_commute_offer_closed :
    SameOutcome 0 ["c", "b"]
      (((run (World.step (.idle "a" (by decide))) init (closedByServer "d")).receive
        (.idle "a" (by decide)) (fun id => ⟨true, id = "b"⟩) 0 "c"
        (serverMessage "offersdp" "c" (.obj [("sdp", .str "offer")])) none).receive
        (.idle "a" (by decide)) (fun id => ⟨true, id = "b"⟩) 0 "b"
        (serverMessage "peerclosed" "b" (.obj [])) none)
      (((run (World.step (.idle "a" (by decide))) init (closedByServer "d")).receive
        (.idle "a" (by decide)) (fun id => ⟨true, id = "b"⟩) 0 "b"
        (serverMessage "peerclosed" "b" (.obj [])) none).receive
        (.idle "a" (by decide)) (fun id => ⟨true, id = "b"⟩) 0 "c"
        (serverMessage "offersdp" "c" (.obj [("sdp", .str "offer")])) none) :=
  commands_commute (.idle "a" (by decide)) (closedByServer "d") (fun id => ⟨true, id = "b"⟩) 0
    "c" "b" (serverMessage "offersdp" "c" (.obj [("sdp", .str "offer")]))
    (serverMessage "peerclosed" "b" (.obj [])) none none (by decide +kernel) (by decide +kernel)
    ⟨"offersdp", by decide, _, rfl⟩ ⟨"peerclosed", by decide, _, rfl⟩ (by decide) (by decide)
    (by decide)

end World

end PeerApi
