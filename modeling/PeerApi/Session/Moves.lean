import PeerApi.Base.Log
import PeerApi.Session.Control
import PeerApi.Connection.Effects

/-! What a call of the interface, an event or a call of a `PeerControl` can do to
the world, as a sequence of elementary moves. None of them touches a `PeerControl`
or the registry of any control; each invariant of the later modules is checked
once against the moves instead of against every function that is made of them.

`src x e` says that instance `x` is performing the effect `e`: only then may a
close request, a command or an event come from it. -/

namespace PeerApi

/-- The event a call of an instance raises. -/
def Effect.event? : Effect → Option Event
  | .onPeerConnect peerId => some (.connect peerId)
  | .onPeerClose peerId code => some (.close peerId code "")
  | .onPeerMessage peerId data => some (.message peerId data)
  | .onPeerWritable peerId => some (.writable peerId)
  | _ => none

/-- The close event of the given id. -/
def Event.Closes (id : String) : Event → Prop
  | .close peerId _ _ => peerId = id
  | _ => False

/-- The instance an observation comes from. -/
def Obs.source : Obs → Option ℕ
  | .observer _ source _ => source
  | .handler _ source _ => source
  | .closed _ source _ => source

def Obs.event? : Obs → Option Event
  | .observer _ _ e => some e
  | .handler _ _ e => some e
  | .closed _ _ _ => none

/-- An observation from an instance is due to one of its calls. -/
def Obs.By (src : ℕ → Effect → Prop) (o : Obs) : Prop :=
  ∀ x, o.source = some x → ∃ f, src x f ∧ ∀ e, o.event? = some e → f.event? = some e

/-- A crash that does not come from a null peer connection or data channel. -/
def Fault.Outside (f : Fault) : Prop := f ≠ .nullPeerConnection ∧ f ≠ .nullDataChannel

namespace World

open Base Relation

/-- A message that may be posted, other than a command of the server. A close request
names the instance registered under its id or comes from an instance, for its own
remote id. -/
def PostOk (src : ℕ → Effect → Prop) (w : World) (m : Message) : Prop :=
  match m.messageId with
  | .closePeer => m.origin = (w.controls m.handler).peers.find? m.data.dataString ∨
      ∃ x code, src x (.closePeer m.data.dataString code) ∧ m.origin = some x ∧
        (w.insts x).control = m.handler ∧ (w.insts x).remoteId = m.data.dataString ∧
        (w.controls m.handler).destroyed = false
  | .commandReceived => False
  | _ => True

/-- A command that may be sent: one of a control about its channels, or one that an
instance sends to its remote id. -/
def CommandOk (src : ℕ → Effect → Prop) (w : World) (sc : SentCommand) : Prop :=
  match sc.source with
  | none => sc.command = "createchannel" ∨ sc.command = "joinchannel" ∨ sc.command = "leavechannel"
  | some x => src x (.sendCommand sc.channel sc.command sc.data) ∧
      Effect.Ok (w.insts x) (.sendCommand sc.channel sc.command sc.data)

/-- An event that may be raised: an opening or a closing of the control, or a call
of one of its instances. -/
def EventOk (src : ℕ → Effect → Prop) (w : World) (c : ℕ) (source : Option ℕ) (e : Event) : Prop :=
  match source with
  | none => (∃ id, e = .open id) ∨ ∃ id code desc, e = .close id code desc
  | some x => (w.insts x).control = c ∧ ∃ f, src x f ∧ f.event? = some e ∧ f.Ok (w.insts x)

/-- The moves of a call of the interface. -/
inductive Move (env : Env) (src : ℕ → Effect → Prop) : World → World → Prop where
  | post (w : World) (m : Message) (thread : (w.controls m.handler).thread = true)
      (ref : m.data.ref = (w.controls m.handler).ref) (ok : PostOk src w m) :
      Move env src w { w with queue := w.queue ++ [m] }
  | signal (w : World) (s : Option Signal) (joins : ℕ) :
      Move env src w { w with signal := s, joins := joins }
  | command (w : World) (s : Option Signal) (sc : SentCommand) (ok : CommandOk src w sc) :
      Move env src w { w with signal := s, commands := w.commands ++ [sc] }
  | sent (w : World) (handed : List HandedData) (returned : List Bool) :
      Move env src w { w with handed := handed, returned := returned }
  | crash (w : World) (f : Fault) (ok : f.Outside) : Move env src w (w.crash f)
  | session (w : World) (c : ℕ) (sessionId : String) (thread : (w.controls c).thread = true) :
      Move env src w (w.modifyControl c fun k => { k with sessionId := sessionId })
  | opened (w : World) (s : Option Signal) (free : w.control = none)
      (made : env.createPeerFactory w.nextControl = true) :
      Move env src w ((newControl { w with signal := s }).modifyControl w.nextControl fun k =>
        { k with thread := true, peerName := env.peerId, userId := env.signalId })
  | failed (w : World) (s : Option Signal) (free : w.control = none)
      (failed : env.createPeerFactory w.nextControl = false) :
      Move env src w { newControl { w with signal := s } with control := none }

abbrev Moves (env : Env) (src : ℕ → Effect → Prop) : World → World → Prop :=
  ReflTransGen (Move env src)

/-- No instance is performing anything. -/
def nobody (_ : ℕ) (_ : Effect) : Prop := False

/-- The moves of one event of control `c`. Only the close event of the peer's own
id sets `close_once_` and drops the installed control. -/
inductive EventMove (env : Env) (c : ℕ) (source : Option ℕ) (e : Event) : World → World → Prop where
  | move {w w' : World} (h : Move env nobody w w') : EventMove env c source e w w'
  | observer (w : World) : EventMove env c source e w { w with obs := w.obs ++ [.observer c source e] }
  | handler (w : World) :
      EventMove env c source e w { w with obs := w.obs ++ [.handler w.control source e] }
  | closed (w : World) (session : Option ℕ) (he : e.Closes env.peerId) :
      EventMove env c source e w { w with obs := w.obs ++ [.closed session source w.control] }
  | closeOnce (w : World) (b : Bool) (he : b = true → e.Closes env.peerId) :
      EventMove env c source e w { w with closeOnce := b }
  | dropped (w : World) (d : ℕ) (hd : w.control = some d) (he : e.Closes env.peerId) :
      EventMove env c source e w
        { w.modifyControl d (fun k => { k with observer := false, ref := false }) with
          control := none }

abbrev EventMoves (env : Env) (c : ℕ) (source : Option ℕ) (e : Event) : World → World → Prop :=
  ReflTransGen (EventMove env c source e)

/-- What performing an effect or answering a command does besides: moves and events.
A control raises only the events that `raises` gives it. -/
inductive Call (env : Env) (raises : ℕ → Event → Prop) (src : ℕ → Effect → Prop) :
    World → World → Prop where
  | move {w w' : World} (h : Move env src w w') : Call env raises src w w'
  | event (w : World) (c : ℕ) (source : Option ℕ) (e : Event) (running : w.fault = none)
      (set : (w.controls c).observer = true) (ok : EventOk src w c source e)
      (admits : raises c e)
      (moves : EventMoves env c source e w (w.observe env c source e)) :
      Call env raises src w (w.observe env c source e)

abbrev Calls (env : Env) (raises : ℕ → Event → Prop) (src : ℕ → Effect → Prop) :
    World → World → Prop :=
  ReflTransGen (Call env raises src)

theorem Moves.calls {env : Env} {raises : ℕ → Event → Prop} {src : ℕ → Effect → Prop} {w w' : World}
    (h : Moves env src w w') : Calls env raises src w w' :=
  h.lift id fun _ _ hm => Call.move hm

theorem Calls.mono {env : Env} {raises raises' : ℕ → Event → Prop} {src : ℕ → Effect → Prop}
    {w w' : World} (hr : ∀ c e, raises c e → raises' c e) (h : Calls env raises src w w') :
    Calls env raises' src w w' := by
  refine h.lift id fun _ _ hcall => ?_
  cases hcall with
  | move h => exact .move h
  | event c source e running set ok admits moves =>
    exact .event _ c source e running set ok (hr c e admits) moves

theorem Moves.events {env : Env} {c : ℕ} {source : Option ℕ} {e : Event} {w w' : World}
    (h : Moves env nobody w w') : EventMoves env c source e w w' :=
  h.lift id fun _ _ hm => EventMove.move hm

/-! ### What moves leave alone -/

structure SameRegistry (w w' : World) : Prop where
  insts : w'.insts = w.insts
  nextInst : w'.nextInst = w.nextInst
  peers : ∀ c, (w'.controls c).peers = (w.controls c).peers
  destroyed : ∀ c, (w'.controls c).destroyed = (w.controls c).destroyed

theorem SameRegistry.refl (w : World) : SameRegistry w w := ⟨rfl, rfl, fun _ => rfl, fun _ => rfl⟩

theorem SameRegistry.trans {w w' w'' : World} (h : SameRegistry w w') (h' : SameRegistry w' w'') :
    SameRegistry w w'' :=
  ⟨h'.insts.trans h.insts, h'.nextInst.trans h.nextInst,
    fun c => (h'.peers c).trans (h.peers c), fun c => (h'.destroyed c).trans (h.destroyed c)⟩

@[simp] theorem modifyControl_insts (c : ℕ) (g : Control → Control) (w : World) :
    (w.modifyControl c g).insts = w.insts := rfl

theorem modifyControl_controls (c d : ℕ) (g : Control → Control) (w : World) :
    (w.modifyControl c g).controls d = if d = c then g (w.controls c) else w.controls d := by
  simp only [modifyControl, Function.update_apply]

/-- A projection of the controls that an update of one of them leaves alone. -/
theorem modifyControl_keeps {α : Type*} (f : Control → α) {g : Control → Control}
    (hg : ∀ k, f (g k) = f k) (c d : ℕ) (w : World) :
    f ((w.modifyControl c g).controls d) = f (w.controls d) := by
  rw [modifyControl_controls]
  split_ifs with h
  · rw [hg, h]
  · rfl

theorem modifyControl_same {w : World} (c : ℕ) {g : Control → Control}
    (hp : ∀ k, (g k).peers = k.peers) (hd : ∀ k, (g k).destroyed = k.destroyed) :
    SameRegistry w (w.modifyControl c g) :=
  ⟨rfl, rfl, fun d => modifyControl_keeps (·.peers) hp c d w,
    fun d => modifyControl_keeps (·.destroyed) hd c d w⟩

theorem newControl_same (w : World) (s : Option Signal) :
    SameRegistry w (newControl { w with signal := s }) := by
  have h := modifyControl_same (w := { w with
    signal := s, nextControl := w.nextControl + 1, control := some w.nextControl }) w.nextControl
    (g := fun k => { k with observer := true, ref := true }) (fun _ => rfl) (fun _ => rfl)
  exact ⟨h.insts, h.nextInst, h.peers, h.destroyed⟩

section

variable {env : Env} {src : ℕ → Effect → Prop} {w w' : World}

theorem Move.same (h : Move env src w w') : SameRegistry w w' := by
  cases h with
  | opened s free =>
    exact (newControl_same w s).trans (modifyControl_same w.nextControl (fun _ => rfl) (fun _ => rfl))
  | failed s free =>
    have h := newControl_same w s
    exact ⟨h.insts, h.nextInst, h.peers, h.destroyed⟩
  | session c sessionId thread => exact modifyControl_same c (fun _ => rfl) (fun _ => rfl)
  | _ => exact ⟨rfl, rfl, fun _ => rfl, fun _ => rfl⟩

/-- No move drops the installed control. -/
theorem Move.holds (h : Move env src w w') {d : ℕ} (hd : w.control = some d) :
    w'.control = some d := by
  cases h with
  | opened s free => rw [free] at hd; cases hd
  | failed s free => rw [free] at hd; cases hd
  | _ => exact hd

theorem Move.obs (h : Move env src w w') : w'.obs = w.obs := by
  cases h <;> rfl

theorem EventMove.same {c : ℕ} {source : Option ℕ} {e : Event}
    (h : EventMove env c source e w w') : SameRegistry w w' := by
  cases h with
  | move h => exact h.same
  | dropped d hd he =>
    have h := modifyControl_same (w := w) d
      (g := fun k => { k with observer := false, ref := false }) (fun _ => rfl) (fun _ => rfl)
    exact ⟨h.insts, h.nextInst, h.peers, h.destroyed⟩
  | _ => exact ⟨rfl, rfl, fun _ => rfl, fun _ => rfl⟩

theorem SameRegistry.of_steps {r : World → World → Prop} (hr : ∀ {w w'}, r w w' → SameRegistry w w')
    (h : ReflTransGen r w w') : SameRegistry w w' := by
  induction h with
  | refl => exact SameRegistry.refl w
  | tail _ hm ih => exact ih.trans (hr hm)

theorem Moves.obs (h : Moves env src w w') : w'.obs = w.obs := by
  induction h with
  | refl => rfl
  | tail _ hm ih => rw [hm.obs, ih]

theorem Moves.same (h : Moves env src w w') : SameRegistry w w' := .of_steps Move.same h

theorem EventMoves.same {c : ℕ} {source : Option ℕ} {e : Event}
    (h : EventMoves env c source e w w') : SameRegistry w w' := .of_steps EventMove.same h

theorem Call.same {raises : ℕ → Event → Prop} (h : Call env raises src w w') : SameRegistry w w' := by
  cases h with
  | move h => exact h.same
  | event c source e running set ok admits moves => exact moves.same

theorem Calls.same {raises : ℕ → Event → Prop} (h : Calls env raises src w w') : SameRegistry w w' :=
  .of_steps Call.same h

end

/-! ### What is observed -/

/-- The observations made in between satisfy `Q`. -/
abbrev Observes (Q : Obs → Prop) : World → World → Prop := Appends World.obs Q

/-- The commands sent in between satisfy `Q`. -/
abbrev Sends (Q : SentCommand → Prop) : World → World → Prop := Appends World.commands Q

section

variable {env : Env} {src : ℕ → Effect → Prop} {w w' : World}

theorem EventMove.observes {c : ℕ} {source : Option ℕ} {e : Event}
    (h : EventMove env c source e w w') :
    Observes (fun o => o.source = source ∧ ∀ e', o.event? = some e' → e' = e) w w' := by
  cases h with
  | move h => exact .of_eq h.obs
  | observer => exact ⟨[.observer c source e], rfl, by simp [Obs.source, Obs.event?]⟩
  | handler => exact ⟨[.handler w.control source e], rfl, by simp [Obs.source, Obs.event?]⟩
  | closed session he =>
    exact ⟨[.closed session source w.control], rfl, by simp [Obs.source, Obs.event?]⟩
  | closeOnce b he => exact .of_eq rfl
  | dropped d hd he => exact .of_eq rfl

/-- What calls make observed is due to the instances that perform them. -/
theorem Calls.observes {raises : ℕ → Event → Prop} (h : Calls env raises src w w') :
    Observes (Obs.By src) w w' := by
  refine Appends.of_steps (fun {w w'} h => ?_) h
  cases h with
  | move h => exact .of_eq h.obs
  | event c source e running set ok admits moves =>
    refine (Appends.of_steps EventMove.observes moves).mono fun o ho x hx => ?_
    obtain ⟨hsource, hevent⟩ := ho
    obtain rfl : source = some x := hsource.symm.trans hx
    obtain ⟨-, f, hf, he, -⟩ := ok
    exact ⟨f, hf, fun e' he' => hevent e' he' ▸ he⟩

theorem EventMove.raised {c : ℕ} {source : Option ℕ} {e : Event}
    (h : EventMove env c source e w w') :
    Observes (fun o => ∀ d s e', o = .observer d s e' → d = c ∧ e' = e) w w' := by
  cases h with
  | move h => exact .of_eq h.obs
  | observer =>
    refine ⟨[.observer c source e], rfl, ?_⟩
    rintro o ho d s e' rfl
    cases List.mem_singleton.mp ho
    exact ⟨rfl, rfl⟩
  | handler => exact ⟨[.handler w.control source e], rfl, by simp⟩
  | closed session he => exact ⟨[.closed session source w.control], rfl, by simp⟩
  | closeOnce b he => exact .of_eq rfl
  | dropped d hd he => exact .of_eq rfl

theorem Move.sends (h : Move env src w w') : Sends (CommandOk src w) w w' := by
  cases h with
  | command s sc ok => exact ⟨[sc], rfl, fun sc' h => List.mem_singleton.mp h ▸ ok⟩
  | _ => exact .of_eq rfl

theorem CommandOk.of_same {src' : ℕ → Effect → Prop} {sc : SentCommand} (hs : SameRegistry w w')
    (hsrc : ∀ x f, src' x f → src x f) (ok : CommandOk src' w' sc) : CommandOk src w sc := by
  unfold CommandOk at ok ⊢
  split at ok
  · exact ok
  · rw [hs.insts] at ok
    exact ⟨hsrc _ _ ok.1, ok.2⟩

/-- The commands that calls send are those of a control about its channels and those
of the instances that perform them. -/
theorem Calls.sends {raises : ℕ → Event → Prop} (h : Calls env raises src w w') :
    Sends (CommandOk src w) w w' := by
  refine .of_steps_within (I := SameRegistry w) (fun hs h => hs.trans h.same) (fun hs h => ?_) h
    (.refl w)
  cases h with
  | move h => exact h.sends.mono fun _ => .of_same hs fun _ _ h => h
  | event c source e running set ok admits moves =>
    refine .of_steps_within (I := SameRegistry w) (fun hs h => hs.trans h.same) (fun hs h => ?_)
      moves hs
    cases h with
    | move h => exact h.sends.mono fun _ => .of_same hs fun _ _ h => h.elim
    | _ => exact .of_eq rfl

end

/-- A property that every call preserves holds after any calls. -/
theorem calls_invariant {r : World → World → Prop} {P : World → Prop}
    (hP : ∀ {w w'}, r w w' → P w → P w') {w w' : World} (h : ReflTransGen r w w') (hw : P w) :
    P w' := by
  induction h with
  | refl => exact hw
  | tail _ hm ih => exact hP hm ih

theorem foldl_moves {α : Type*} {r : World → World → Prop} {f : World → α → World}
    (hf : ∀ w a, ReflTransGen r w (f w a)) (l : List α) (w : World) :
    ReflTransGen r w (l.foldl f w) := by
  induction l generalizing w with
  | nil => exact .refl
  | cons a l ih => exact (hf w a).trans (ih _)

/-! ### What has come in -/

/-- The commands of the server in the queue, with the instances they come from. -/
def incoming (w : World) : List (Json × Option ℕ) :=
  (w.queue.filter fun m => m.messageId = .commandReceived).map fun m => (m.data.dataJson, m.origin)

section

variable {env : Env} {src : ℕ → Effect → Prop} {w w' : World}

theorem mem_incoming {m : Json × Option ℕ} : m ∈ w.incoming ↔
    ∃ m' ∈ w.queue, m'.messageId = .commandReceived ∧ (m'.data.dataJson, m'.origin) = m := by
  simp [incoming, and_assoc]

theorem incoming_append (w : World) (m : Message) :
    incoming { w with queue := w.queue ++ [m] } = w.incoming ++
      if m.messageId = .commandReceived then [(m.data.dataJson, m.origin)] else [] := by
  unfold incoming
  split_ifs with h <;> simp [h]

theorem Move.incoming (h : Move env src w w') : w'.incoming = w.incoming := by
  cases h with
  | post m thread ref ok =>
    have hm : m.messageId ≠ .commandReceived := by
      intro hm
      simp [PostOk, hm] at ok
    rw [incoming_append, if_neg hm, List.append_nil]
  | _ => rfl

/-- Calls post no commands of the server. -/
theorem Calls.incoming {raises : ℕ → Event → Prop} (h : Calls env raises src w w') :
    w'.incoming = w.incoming := by
  refine calls_invariant (P := fun w₂ => w₂.incoming = w.incoming) (fun h hw => ?_) h rfl
  cases h with
  | move h => exact h.incoming.trans hw
  | event c source e running set ok admits moves =>
    refine calls_invariant (P := fun w₂ => w₂.incoming = w.incoming) (fun h hw => ?_) moves hw
    cases h with
    | move h => exact h.incoming.trans hw
    | _ => exact hw

end

/-! ### The signal connection -/

variable {env : Env} {src : ℕ → Effect → Prop}

theorem post_moves (c : ℕ) (id : MessageId) (data : MessageData) (origin : Option ℕ) (w : World)
    (ok : PostOk src w ⟨c, id, { data with ref := (w.controls c).ref }, origin⟩) :
    Moves env src w (w.post c id data origin) := by
  unfold post
  split_ifs with ht
  · exact .single (.post w _ ht rfl ok)
  · exact .single (.crash w _ (by simp [Fault.Outside]))

theorem signalOnClosed_moves (w : World) (code : CloseStatus) :
    Moves env src w (w.signalOnClosed code) := by
  refine foldl_moves (fun w c => ?_) _ w
  unfold onSignalConnectionClosed
  split_ifs
  · exact post_moves c .onSignalConnectionClose _ none w trivial
  · exact .refl

theorem net_moves (w : World) (a : Signal.NetAction) : Moves env src w (w.net a) := by
  unfold net
  split
  · exact .refl
  next s _ =>
    exact (ReflTransGen.single (Move.signal w (some (s.net a).1) w.joins)).trans
      (foldl_moves signalOnClosed_moves _ _)

theorem join_moves (w : World) : Moves env src w (w.join env) := by
  have h : Moves env src w _ :=
    (ReflTransGen.single (.signal w w.signal (w.joins + 1))).trans
      (foldl_moves net_moves (env.join w.joins) _)
  unfold join
  dsimp only
  split
  · exact h
  · split_ifs
    · exact h.tail (.crash _ _ (by simp [Fault.Outside]))
    · exact h.tail (.signal _ _ _)

theorem signalCall_moves (f : Signal → Signal) (w : World) :
    Moves env src w (w.signalCall env f) := by
  unfold signalCall
  split
  · exact .refl
  next s _ =>
    have h : Moves env src w _ := .single (.signal w (some (f s)) w.joins)
    dsimp only
    split_ifs
    · exact h.trans (join_moves _)
    · exact h

theorem signalSyncClose_moves (w : World) : Moves env src w (w.signalSyncClose env) := by
  unfold signalSyncClose
  split
  · exact .single (.crash w _ (by simp [Fault.Outside]))
  · exact signalCall_moves _ w

theorem sendCommand_moves (source : Option ℕ) (channel command : String) (data : Json) (w : World)
    (ok : ∀ b, CommandOk src w ⟨source, channel, command, data, b⟩) :
    Moves env src w (w.sendCommand source channel command data) := by
  unfold sendCommand
  split
  · exact .refl
  · exact .single (.command w _ _ (ok _))

theorem createChannel_moves (name : String) (w : World) : Moves env src w (w.createChannel name) :=
  sendCommand_moves _ _ _ _ w (fun _ => Or.inl rfl)

theorem joinChannel_moves (name : String) (w : World) : Moves env src w (w.joinChannel name) :=
  sendCommand_moves _ _ _ _ w (fun _ => Or.inr (Or.inl rfl))

theorem leaveChannel_moves (name : String) (w : World) : Moves env src w (w.leaveChannel name) :=
  sendCommand_moves _ _ _ _ w (fun _ => Or.inr (Or.inr rfl))

/-! ### The public interface -/

/-- Every registered instance has its local data channel. -/
def ChannelsSet (w : World) : Prop :=
  ∀ c k x, (w.controls c).peers.find? k = some x → (w.insts x).localDataChannel.isSome = true

theorem ChannelsSet.same {w w' : World} (h : ChannelsSet w) (hs : SameRegistry w w') :
    ChannelsSet w' := by
  intro c k x hx
  rw [hs.peers] at hx
  rw [hs.insts]
  exact h c k x hx

theorem peerOpen_moves (w : World) : Moves env src w (w.peerOpen env) := by
  unfold peerOpen
  split_ifs with hc
  · exact .refl
  have hfree : w.control = none := by simpa using hc
  dsimp only
  split_ifs with hmade
  · exact (ReflTransGen.single (Move.opened w (some (w.signal.getD .init)) hfree hmade)).trans
      (signalCall_moves _ _)
  · exact .single (.failed w (some (w.signal.getD .init)) hfree (by simpa using hmade))

/-- A send is answered, with or without the channel, or finds no channel at all. -/
theorem controlSend_cases (env : Env) (c : ℕ) (peerId : String) (data : List UInt8) (wait : Bool)
    (w : World) :
    (∃ handed returned, w.controlSend env c peerId data wait =
      { w with handed := handed, returned := returned }) ∨
    w.controlSend env c peerId data wait = w.crash .nullDataChannel ∧
      ∃ x, (w.controls c).peers.find? peerId = some x ∧ (w.insts x).localDataChannel = none := by
  unfold controlSend
  cases hx : (w.controls c).peers.find? peerId with
  | none => exact Or.inl ⟨_, _, rfl⟩
  | some x =>
    dsimp only
    split
    next hn =>
      refine Or.inr ⟨rfl, x, rfl, ?_⟩
      cases wait <;> simp only [PeerControl.syncSend, PeerControl.send] at hn <;>
        split_ifs at hn <;> simpa using hn
    next => exact Or.inl ⟨_, _, rfl⟩

theorem controlSend_moves (c : ℕ) (peerId : String) (data : List UInt8) (wait : Bool)
    {w : World} (hl : ChannelsSet w) : Moves env src w (w.controlSend env c peerId data wait) := by
  rcases controlSend_cases env c peerId data wait w with ⟨handed, returned, he⟩ | ⟨-, x, hx, hnone⟩
  · rw [he]
    exact .single (.sent w _ _)
  · have hsome := hl c peerId x hx
    rw [hnone] at hsome
    cases hsome

theorem api_moves {w : World} (hl : ChannelsSet w) (a : Api) : Moves env src w (w.api env a) := by
  unfold api
  split_ifs
  · exact .refl
  cases a with
  | «open» => exact peerOpen_moves w
  | close peerId =>
    simp only [peerClose]
    split
    · exact .single (.crash w _ (by simp [Fault.Outside]))
    next c _ =>
      split_ifs
      · exact (post_moves c .close _ none w trivial).trans (signalSyncClose_moves _)
      · exact post_moves c .closePeer _ _ w (Or.inl rfl)
  | connect peerId =>
    simp only [peerConnect]
    split
    · exact .single (.crash w _ (by simp [Fault.Outside]))
    · exact joinChannel_moves peerId w
  | send peerId data wait =>
    simp only [peerSend]
    split
    · exact .single (.crash w _ (by simp [Fault.Outside]))
    · exact controlSend_moves _ peerId data wait hl

theorem apis_moves {w : World} (hl : ChannelsSet w) (as : List Api) :
    Moves env src w (as.foldl (api env) w) := by
  induction as generalizing w with
  | nil => exact .refl
  | cons a as ih =>
    have h : Moves env src w _ := api_moves hl a
    exact h.trans (ih (hl.same h.same))

/-! ### Events -/

section

variable {raises : ℕ → Event → Prop} {c : ℕ} {source : Option ℕ} {e : Event} {w : World}

theorem callEventHandler_moves (hl : ChannelsSet w) :
    EventMoves env c source e w (w.callEventHandler env source e) := by
  unfold callEventHandler
  split_ifs
  · have h : EventMove env c source e w { w with obs := w.obs ++ [.handler w.control source e] } :=
      .handler w
    exact (ReflTransGen.single h).trans (apis_moves (hl.same h.same) _).events
  · exact .refl

theorem dropControl_moves (he : e.Closes env.peerId) :
    EventMoves env c source e w w.dropControl := by
  unfold dropControl
  split_ifs
  · exact .refl
  · split
    · exact .single (.move (.crash w _ (by simp [Fault.Outside])))
    next d hd => exact .single (.dropped w d hd he)

theorem logClosed_moves (he : e.Closes env.peerId) (session : Option ℕ) :
    EventMoves env c source e w (w.logClosed session source) := by
  unfold logClosed
  split_ifs
  · exact .refl
  · exact .single (.closed w session he)

theorem notify_moves (hl : ChannelsSet w) :
    EventMoves env c source e w (w.notify env source e) := by
  cases e with
  | «open» peerId =>
    have once : EventMove env c source (.open peerId) w { w with closeOnce := false } :=
      .closeOnce w false fun h => by cases h
    exact (ReflTransGen.single once).trans (callEventHandler_moves (hl.same once.same))
  | close peerId code desc =>
    simp only [notify, peerOnClose]
    split_ifs with hid
    · exact .refl
    · have he : (Event.close peerId code desc).Closes env.peerId := hid
      have once : EventMove env c source (.close peerId code desc) w { w with closeOnce := true } :=
        .closeOnce w true fun _ => he
      exact (((ReflTransGen.single once).trans (callEventHandler_moves (hl.same once.same))).trans
        (dropControl_moves he)).trans (logClosed_moves he _)
    · exact callEventHandler_moves hl
  | connect peerId => exact callEventHandler_moves hl
  | message peerId data => exact callEventHandler_moves hl
  | writable peerId => exact callEventHandler_moves hl

theorem observe_moves (hl : ChannelsSet w) (running : w.fault = none)
    (hset : (w.controls c).observer = true) :
    EventMoves env c source e w (w.observe env c source e) := by
  have ho : EventMove env c source e w { w with obs := w.obs ++ [.observer c source e] } :=
    .observer w
  unfold observe
  rw [if_neg (by simp [running]), if_pos hset]
  exact (ReflTransGen.single ho).trans (notify_moves (hl.same ho.same))

theorem observe_calls (hl : ChannelsSet w) (ok : EventOk src w c source e)
    (hr : raises c e) :
    Calls env raises src w (w.observe env c source e) := by
  by_cases running : w.fault = none
  · by_cases hset : (w.controls c).observer = true
    · exact .single (.event w c source e running hset ok hr (observe_moves hl running hset))
    · unfold observe
      rw [if_neg (by simp [running]), if_neg hset]
      exact .single (.move (.crash w _ (by simp [Fault.Outside])))
  · unfold observe
    rw [if_pos (Option.isSome_iff_ne_none.mpr running)]

theorem observeIfSet_calls (hl : ChannelsSet w) (ok : EventOk src w c source e)
    (hr : raises c e) :
    Calls env raises src w (w.observeIfSet env c source e) := by
  unfold observeIfSet
  split_ifs
  · exact observe_calls hl ok hr
  · exact .refl

/-! ### Calls of an instance -/

theorem perform_calls {x : ℕ} {f : Effect} (hl : ChannelsSet w) (hsrc : src x f)
    (hok : f.Ok (w.insts x)) (hr : ∀ e, f.event? = some e → raises (w.insts x).control e) :
    Calls env raises src w (w.perform env x f) := by
  have event {e : Event} (he : f.event? = some e) :
      Calls env raises src w (if (w.controls (w.insts x).control).destroyed then
        w.crash .danglingControl else w.observeIfSet env (w.insts x).control (some x) e) := by
    split_ifs
    · exact .single (.move (.crash w _ (by simp [Fault.Outside])))
    · exact observeIfSet_calls hl ⟨rfl, f, hsrc, he, hok⟩ (hr e he)
  unfold perform
  split_ifs
  · exact .refl
  cases f with
  | sendCommand peerId command data =>
    dsimp only
    split_ifs
    · exact .single (.move (.crash w _ (by simp [Fault.Outside])))
    · exact (sendCommand_moves (some x) peerId command data w fun _ => ⟨hsrc, hok⟩).calls
  | closePeer peerId code =>
    dsimp only
    split_ifs with hd
    · exact .single (.move (.crash w _ (by simp [Fault.Outside])))
    · exact (post_moves _ .closePeer _ _ w
        (Or.inr ⟨x, code, hsrc, rfl, rfl, hok.symm, by simpa using hd⟩)).calls
  | onPeerConnect peerId => exact event rfl
  | onPeerClose peerId code => exact event rfl
  | onPeerMessage peerId data => exact event rfl
  | onPeerWritable peerId => exact event rfl
  | crash f => exact hok.elim
  | removed => exact .refl
  | closing => exact .refl
  | opened state => exact .refl
  | answered origin => exact .refl

theorem performs_calls {x : ℕ} {fs : List Effect} (hl : ChannelsSet w)
    (hsrc : ∀ f ∈ fs, src x f) (hok : ∀ f ∈ fs, f.Ok (w.insts x))
    (hr : ∀ f ∈ fs, ∀ e, f.event? = some e → raises (w.insts x).control e) :
    Calls env raises src w (fs.foldl (perform env x) w) := by
  induction fs generalizing w with
  | nil => exact .refl
  | cons f fs ih =>
    have h : Calls env raises src w (w.perform env x f) :=
      perform_calls hl (hsrc f List.mem_cons_self) (hok f List.mem_cons_self)
        (hr f List.mem_cons_self)
    refine h.trans (ih (hl.same h.same) (fun g hg => hsrc g (List.mem_cons_of_mem f hg)) ?_ ?_)
    · intro g hg
      rw [h.same.insts]
      exact hok g (List.mem_cons_of_mem f hg)
    · intro g hg
      rw [h.same.insts]
      exact hr g (List.mem_cons_of_mem f hg)

end

/-! ### Observations only accumulate -/

/-- A call of the interface raises no event, whatever the state. -/
theorem api_obs (env : Env) (w : World) (a : Api) : (w.api env a).obs = w.obs := by
  unfold api
  split_ifs
  · rfl
  cases a with
  | «open» =>
    have h : Moves env nobody w _ := peerOpen_moves w
    exact h.obs
  | close peerId =>
    simp only [peerClose]
    split
    · rfl
    next c _ =>
      split_ifs
      · have h : Moves env nobody w (w.closeQueued c .normal) := post_moves c .close _ none w trivial
        have h' : Moves env nobody (w.closeQueued c .normal) _ := signalSyncClose_moves _
        exact h'.obs.trans h.obs
      · have h : Moves env nobody w (w.closePeerQueued c peerId .normal
            ((w.controls c).peers.find? peerId)) := post_moves c .closePeer _ _ w (Or.inl rfl)
        exact h.obs
  | connect peerId =>
    simp only [peerConnect]
    split
    · rfl
    · have h : Moves env nobody w _ := joinChannel_moves peerId w
      exact h.obs
  | send peerId data wait =>
    simp only [peerSend]
    split
    · rfl
    next c _ =>
      rcases controlSend_cases env c peerId data wait w with ⟨_, _, he⟩ | ⟨he, -⟩
      · have hobs := congrArg World.obs he
        exact hobs
      · have hobs := congrArg World.obs he
        exact hobs

theorem apis_obs (env : Env) (as : List Api) (w : World) :
    (as.foldl (api env) w).obs = w.obs := by
  induction as generalizing w with
  | nil => rfl
  | cons a as ih => rw [List.foldl_cons, ih, api_obs]

theorem callEventHandler_obs (env : Env) (source : Option ℕ) (e : Event) (w : World) :
    w.obs <+: (w.callEventHandler env source e).obs := by
  unfold callEventHandler
  split_ifs
  · dsimp only
    rw [apis_obs]
    exact List.prefix_append _ _
  · exact List.prefix_rfl

theorem dropControl_obs (w : World) : w.dropControl.obs = w.obs := by
  unfold dropControl
  split_ifs
  · rfl
  · cases h : w.control <;> rfl

theorem logClosed_obs (session source : Option ℕ) (w : World) :
    w.obs <+: (w.logClosed session source).obs := by
  unfold logClosed
  split_ifs
  · exact List.prefix_rfl
  · exact List.prefix_append _ _

theorem notify_obs (env : Env) (source : Option ℕ) (e : Event) (w : World) :
    w.obs <+: (w.notify env source e).obs := by
  cases e with
  | close peerId code desc =>
    simp only [notify, peerOnClose]
    split_ifs
    · exact List.prefix_rfl
    · refine List.IsPrefix.trans ?_ (logClosed_obs _ _ _)
      rw [dropControl_obs]
      exact callEventHandler_obs env source (.close peerId code desc) { w with closeOnce := true }
    · exact callEventHandler_obs env source _ w
  | «open» peerId => exact callEventHandler_obs env source _ { w with closeOnce := false }
  | connect peerId => exact callEventHandler_obs env source _ w
  | message peerId data => exact callEventHandler_obs env source _ w
  | writable peerId => exact callEventHandler_obs env source _ w

/-- The first thing observed is the event itself. -/
theorem observe_obs (env : Env) {c : ℕ} (source : Option ℕ) (e : Event) {w : World}
    (hf : w.fault = none) (ho : (w.controls c).observer = true) :
    w.obs ++ [.observer c source e] <+: (w.observe env c source e).obs := by
  unfold observe
  rw [if_neg (by simp [hf]), if_pos ho]
  exact notify_obs env source e { w with obs := w.obs ++ [.observer c source e] }

end World

end PeerApi
