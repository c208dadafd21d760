import PeerApi.Session.DeadEntries

/-! Leaving the channels on the signal server. `Control::ClosePeer` ends with the
command `leavechannel`, which is written only while the signal connection is open.
`Peer::Close` of one peer queues the request and leaves the connection alone.
`Peer::Close` of the session also queues its request, but then closes the connection
and waits for the end of the network thread, before the webrtc thread has had a chance
to take the request from the queue: every `leavechannel` comes too late. -/

namespace PeerApi

/-- The command that leaves the channel. -/
def SentCommand.Leaves (id : String) (sc : SentCommand) : Prop :=
  sc.channel = id ∧ sc.command = "leavechannel" ∧ sc.data = .obj [("name", .str id)]

/-- The command that leaves the channel, as it is sent. -/
def SignalCommand.leave (id : String) : SignalCommand :=
  ⟨id, "leavechannel", .obj [("name", .str id)]⟩

namespace World

open Base Relation

variable {env : Env} {w w' w'' : World} {c d : ℕ} {k : String} {b : Bool}

/-- `Peer::Close` takes the id for the whole session. -/
def Whole (env : Env) (id : String) : Prop := id = "" ∨ id = env.peerId

/-- The handlers that ran from one world to the other did not close the session. -/
def LetsBe (env : Env) (w w' : World) : Prop :=
  ∀ os session source e, w.obs <+: os → os ++ [.handler session source e] <+: w'.obs →
    ∀ id, Whole env id → .close id ∉ env.handler (os ++ [.handler session source e])

theorem LetsBe.mono (h : LetsBe env w w'') (ho : w'.obs <+: w''.obs) : LetsBe env w w' :=
  fun os session source e h1 h2 => h os session source e h1 (h2.trans ho)

/-- The commands given to the signal connection in between. -/
def newCommands (w w' : World) : List SentCommand := w'.commands.drop w.commands.length

/-- The commands that the signal connection has sent in between. -/
def newSent (w w' : World) : List SignalCommand := w'.sent.drop w.sent.length

theorem newCommands_of_append {new : List SentCommand} (h : w'.commands = w.commands ++ new) :
    newCommands w w' = new := by
  rw [newCommands, h, List.drop_left]

/-- What the connection has sent are the commands that were written. -/
theorem Linked.mem_newSent (h : Linked w) (h' : Linked w') (hs : Sends (fun _ => True) w w')
    {sent : SignalCommand} : sent ∈ newSent w w' ↔ sent.isOpen = false ∧
      ∃ sc ∈ newCommands w w', sc.written = true ∧ ⟨sc.channel, sc.command, sc.data⟩ = sent := by
  obtain ⟨new, hnew, -⟩ := hs
  rw [newCommands_of_append hnew, newSent, h'.sent, h.sent]
  simp only [World.written, hnew, List.filter_append, List.map_append, List.drop_left,
    List.mem_filter, List.mem_map]
  constructor
  · rintro ⟨⟨sc, ⟨hsc, hw⟩, he⟩, ho⟩
    exact ⟨by simpa using ho, sc, hsc, hw, he⟩
  · rintro ⟨ho, sc, hsc, hw, he⟩
    exact ⟨⟨sc, ⟨hsc, hw⟩, he⟩, by simpa using ho⟩

theorem Linked.leave_sent (h : Linked w) (h' : Linked w') (hs : Sends (fun _ => True) w w') :
    .leave k ∈ newSent w w' ↔ ∃ sc ∈ newCommands w w', sc.Leaves k ∧ sc.written = true := by
  rw [h.mem_newSent h' hs]
  constructor
  · rintro ⟨-, sc, hsc, hw, he⟩
    obtain ⟨h1, h2, h3⟩ := SignalCommand.mk.inj he
    exact ⟨sc, hsc, ⟨h1, h2, h3⟩, hw⟩
  · rintro ⟨sc, hsc, ⟨h1, h2, h3⟩, hw⟩
    exact ⟨by simp [SignalCommand.isOpen, SignalCommand.leave], sc, hsc, hw, by rw [h1, h2, h3]; rfl⟩

/-! ### The state of the connection -/

/-- The connection is open, or not, as `b` says. -/
def Holds (b : Bool) (w : World) : Prop := ∀ s, w.signal = some s → s.opened = b

/-- The connection is still as `b` says, and so all commands had the same fate. -/
structure Steady (b : Bool) (w w' : World) : Prop where
  holds : Holds b w'
  sends : Sends (fun sc => sc.written = b) w w'

theorem Steady.of_eq (h : Holds b w) (hs : w'.signal = w.signal)
    (hk : w'.commands = w.commands) : Steady b w w' :=
  ⟨fun s hs' => h s (hs ▸ hs'), .of_eq hk⟩

theorem Steady.trans (h : Steady b w w') (h' : Steady b w' w'') : Steady b w w'' :=
  ⟨h'.holds, h.sends.trans h'.sends⟩

theorem Holds.sendCommand (h : Holds b w) (source : Option ℕ) (channel : String)
    {command : String} (data : Json) (hne : command ≠ "") :
    Steady b w (w.sendCommand source channel command data) := by
  unfold World.sendCommand
  cases hs : w.signal with
  | none => exact .of_eq h rfl rfl
  | some s =>
    refine ⟨fun t ht => ?_, _, rfl, ?_⟩
    · obtain rfl := Option.some.inj ht
      rw [Signal.sendCommand_opened]
      exact h s hs
    · intro sc hsc
      rw [List.mem_singleton.mp hsc]
      exact (Signal.sendCommand_writes hne channel data s).trans (h s hs)

theorem post_signal (c : ℕ) (id : MessageId) (data : MessageData) (origin : Option ℕ) (w : World) :
    (w.post c id data origin).signal = w.signal ∧
      (w.post c id data origin).commands = w.commands := by
  unfold post
  split_ifs <;> exact ⟨rfl, rfl⟩

/-- A connection that is not open is not closed again. -/
theorem Holds.signalSyncClose (h : Holds false w) (hj : ∀ s, w.signal = some s → s.joining = none) :
    Steady false w (w.signalSyncClose env) := by
  unfold World.signalSyncClose
  cases hs : w.signal with
  | none => exact .of_eq h rfl rfl
  | some s =>
    have hclose : s.syncClose = s := by simp [Signal.syncClose, h s hs]
    simp only [signalCall, hs, hclose, hj s hs, Option.isSome_none, Bool.false_eq_true, if_false]
    exact .of_eq h hs.symm rfl

/-- A call that a handler makes while the session is installed. -/
theorem Wired.api_steady (h : Wired w) (hd : w.control = some d) (hb : Holds b w) {a : Api}
    (ha : b = true → ∀ id, Whole env id → a ≠ .close id) : Steady b w (w.api env a) := by
  unfold World.api
  split_ifs with hf
  · exact .of_eq hb rfl rfl
  cases a with
  | «open» =>
    simp only [World.peerOpen, hd, Option.isSome_some, if_true]
    exact .of_eq hb rfl rfl
  | close peerId =>
    simp only [World.peerClose, hd]
    split_ifs with hwhole
    · obtain rfl : b = false := by
        cases b with
        | false => rfl
        | true => exact absurd rfl (ha rfl peerId hwhole)
      obtain ⟨hs, hk⟩ := post_signal d .close { dataInt32 := some .normal } none w
      have hq : Steady false w (w.closeQueued d .normal) := .of_eq hb hs hk
      refine hq.trans (hq.holds.signalSyncClose fun s hs' => ?_)
      have hs₀ : w.signal = some s := hs.symm.trans hs'
      exact h.joined (by simpa using hf) s hs₀
    · obtain ⟨hs, hk⟩ := post_signal d .closePeer
        { dataString := peerId, dataInt32 := some .normal } ((w.controls d).peers.find? peerId) w
      exact .of_eq hb hs hk
  | connect peerId =>
    simp only [peerConnect, hd]
    exact hb.sendCommand none peerId _ (by decide)
  | send peerId data wait =>
    simp only [peerSend, hd]
    rcases controlSend_cases env d peerId data wait w with ⟨handed, returned, he⟩ | ⟨he, -⟩
    · rw [he]
      exact .of_eq hb rfl rfl
    · rw [he]
      exact .of_eq hb rfl rfl

theorem Wired.apis_steady (h : Wired w) (hd : w.control = some d) (hb : Holds b w) {as : List Api}
    (ha : b = true → ∀ id, Whole env id → .close id ∉ as) :
    Steady b w (as.foldl (World.api env) w) := by
  induction as generalizing w with
  | nil => exact .of_eq hb rfl rfl
  | cons a as ih =>
    have hstep : Steady b w (w.api env a) :=
      h.api_steady hd hb fun hbt id hid he => ha hbt id hid (he ▸ List.mem_cons_self)
    obtain ⟨h1, h2⟩ := h.api hd a
    refine hstep.trans (ih h1 h2 hstep.holds fun hbt id hid hmem => ?_)
    exact ha hbt id hid (List.mem_cons_of_mem a hmem)

/-- There is a connection, and since the first world it has been as `b` says; an open
one may be closed by a handler. -/
structure Holding (env : Env) (b : Bool) (w₀ w : World) : Prop extends Wired w where
  made : w.signal.isSome = true
  obs : w₀.obs <+: w.obs
  steady : w.fault = none → (b = true → LetsBe env w₀ w) → Steady b w₀ w

variable {w₀ : World}

theorem sendCommand_obs (source : Option ℕ) (channel command : String) (data : Json) (w : World) :
    (w.sendCommand source channel command data).obs = w.obs := by
  unfold sendCommand
  cases w.signal <;> rfl

theorem Holding.sendCommand (h : Holding env b w₀ w) (source : Option ℕ)
    (channel : String) {command : String} (data : Json) (hne : command ≠ "") :
    Holding env b w₀ (w.sendCommand source channel command data) where
  toWired := (h.toWired.sendCommand source channel command data).1
  made := by
    obtain ⟨s, hs⟩ := Option.isSome_iff_exists.mp h.made
    simp [World.sendCommand, hs]
  obs := by rw [sendCommand_obs]; exact h.obs
  steady hf hb := by
    rw [sendCommand_fault] at hf
    have hobs := sendCommand_obs source channel command data w
    have hw := h.steady hf fun hbt => (hb hbt).mono (hobs ▸ List.prefix_rfl)
    exact hw.trans (hw.holds.sendCommand source channel data hne)

theorem apis_running {as : List Api} (hf : (as.foldl (World.api env) w).fault = none) :
    w.fault = none := by
  induction as generalizing w with
  | nil => exact hf
  | cons a as ih =>
    have hn := ih hf
    unfold World.api at hn
    split_ifs at hn with hs
    · exact hn
    · simpa using hs

/-- The handlers of the user are the only ones who may close the connection. -/
theorem Holding.callEventHandler (h : Holding env b w₀ w) (hd : w.control = some d)
    (source : Option ℕ) (e : Event) : Holding env b w₀ (w.callEventHandler env source e) := by
  obtain ⟨hwired, hcontrol⟩ := h.toWired.callEventHandler env hd source e
  have hobs := callEventHandler_obs env source e w
  refine ⟨hwired, hwired.signal (by rw [hcontrol]; rfl), h.obs.trans hobs, fun hf hb => ?_⟩
  unfold World.callEventHandler at hf hb ⊢
  split_ifs at hf hb ⊢
  · have h₁ : Wired { w with obs := w.obs ++ [.handler w.control source e] } :=
      h.toWired.of_eq rfl rfl rfl rfl
    have running : World.fault { w with obs := w.obs ++ [.handler w.control source e] } = none :=
      apis_running hf
    have hlets (hbt : b = true) :
        LetsBe env w₀ { w with obs := w.obs ++ [.handler w.control source e] } := by
      have hobs := apis_obs env (env.handler (w.obs ++ [.handler w.control source e]))
        { w with obs := w.obs ++ [.handler w.control source e] }
      exact (hb hbt).mono (hobs ▸ List.prefix_rfl)
    have hw := h.steady running fun hbt => (hlets hbt).mono (List.prefix_append _ _)
    have hapis := h₁.apis_steady hd hw.holds fun hbt =>
      hlets hbt w.obs w.control source e h.obs List.prefix_rfl
    exact ⟨hapis.holds, hw.sends.trans hapis.sends⟩
  · exact h.steady hf hb

theorem holding_serves (env : Env) (b : Bool) (w₀ : World) : Serves env (Holding env b w₀) where
  same {w w'} h hf hc hs _ hk ho := by
    refine ⟨h.toWired.of_eq hf hc hs hk, hs ▸ h.made, h.obs.trans ho, fun hf' hb => ?_⟩
    have hw := h.steady (hf ▸ hf') fun hbt => (hb hbt).mono ho
    exact hw.trans (.of_eq hw.holds hs hk)
  crash h1 h2 _ h :=
    ⟨h.toLinked.crash fun hn => hn.elim h1 h2, h.made, h.obs, fun hf => by cases hf⟩
  command source channel _ data hne h := h.sendCommand source channel data hne
  event source e h hd :=
    ⟨h.callEventHandler hd source e, (h.toWired.callEventHandler env hd source e).2⟩
  drop {w d} h hd := by
    have hw := h.toWired.dropControl hd
    unfold World.dropControl at hw ⊢
    split_ifs at hw ⊢
    · exact h
    · simp only [hd] at hw ⊢
      refine ⟨hw, h.made, h.obs, fun hf hb => ?_⟩
      have hs := h.steady hf hb
      exact ⟨hs.holds, hs.sends⟩

/-! ### The call -/

theorem foldl_commands {α : Type*} {f : World → α → World}
    (hf : ∀ w a, (f w a).commands = w.commands) (as : List α) (w : World) :
    (as.foldl f w).commands = w.commands := by
  induction as generalizing w with
  | nil => rfl
  | cons a as ih => rw [List.foldl_cons, ih, hf]

theorem signalOnClosed_commands (w : World) (code : CloseStatus) :
    (w.signalOnClosed code).commands = w.commands := by
  refine foldl_commands (fun w c => ?_) w.subscribed w
  unfold onSignalConnectionClosed
  split_ifs
  · exact (post_signal c _ _ _ w).2
  · rfl

theorem net_commands (w : World) (a : Signal.NetAction) : (w.net a).commands = w.commands := by
  unfold World.net
  cases w.signal with
  | none => rfl
  | some s => exact foldl_commands signalOnClosed_commands (s.net a).2 _

theorem join_commands (env : Env) (w : World) : (w.join env).commands = w.commands := by
  have hnet := foldl_commands net_commands (env.join w.joins) { w with joins := w.joins + 1 }
  unfold World.join
  dsimp only at hnet ⊢
  split
  · exact hnet
  · split_ifs <;> exact hnet

/-- `SyncClose` returns when the run loop has ended, with the connection closed. -/
theorem Wired.signalSyncClose (h : Wired w) {s : Signal} (hs : w.signal = some s)
    (ho : s.opened = true) (hf : (w.signalSyncClose env).fault = none) :
    Steady false w (w.signalSyncClose env) := by
  have hinv := h.inv s hs
  have hthread : s.thread = true := thread_of_opened hinv ho
  have hj : s.syncClose.joining = some .syncClose := by simp [Signal.syncClose, ho, hthread]
  have he : w.signalSyncClose env = World.join env { w with signal := some s.syncClose } := by
    simp only [World.signalSyncClose, World.signalCall, hs, hj, Option.isSome_some, if_true]
  have hl : Linked { w with signal := some s.syncClose } :=
    h.goes hs hinv.syncClose (by rw [signalCall_syncClose.sent])
  rw [he] at hf ⊢
  obtain ⟨hrun, hsig⟩ := (hl.join env rfl (by rw [hj]; rfl)).2.2 hf
  refine ⟨fun t ht => ?_, .of_eq (join_commands env _)⟩
  obtain rfl := Option.some.inj (hsig.symm.trans ht)
  have hn := netRun_inv hinv.syncClose (env.join w.joins)
  have hclosed := opened_of_stopped hn hrun
  simp only [Signal.joined, netRun_joining, hj]
  exact hclosed

/-- The call finds and leaves everything in place but the state of the connection. -/
theorem Wired.close_holding (h : Wired w) (hc : w.control = some c) (hf : w.fault = none)
    {id : String} (hs : (w.peerClose env id).fault = none → Steady b w (w.peerClose env id)) :
    Holding env b w (w.step env (.api (.close id))) := by
  have hact : w.act env (.api (.close id)) = w.peerClose env id := by
    simp [World.act, World.api, hf]
  obtain ⟨hwired, hcontrol⟩ := h.peerClose hc id
  have hobs : (w.peerClose env id).obs = w.obs := by
    rw [← hact]
    exact api_obs env w _
  have hclose : Holding env b w (w.peerClose env id) :=
    ⟨hwired, hwired.signal (by rw [hcontrol]; rfl), hobs ▸ List.prefix_rfl,
      fun hf' _ => hs hf'⟩
  rw [step_running hf, hact]
  exact (holding_serves env b w).keeps hclose _ rfl rfl rfl rfl rfl rfl

/-! ### The command to leave -/

/-- The channel was left in between, or the command to leave it was dropped. -/
def Left (k : String) (w w' : World) : Prop := ∃ sc ∈ newCommands w w', sc.Leaves k

theorem Tick.sends {G : Guard} (h : Tick env G w w') : Sends (fun _ => True) w w' := by
  have calls : ∀ {raises src w w'}, Calls env raises src w w' → Sends (fun _ => True) w w' :=
    fun h => h.sends.mono fun _ _ => trivial
  cases h with
  | call h => exact calls (.single h)
  | callback x cb hx alive started report h =>
    have hs := calls h
    exact hs
  | closed c k x code hx h =>
    have hs := calls h
    exact hs
  | _ => exact .of_eq rfl

theorem Ticks.sends {G : Guard} (h : Ticks env G w w') : Sends (fun _ => True) w w' :=
  Appends.of_steps Tick.sends h

/-- What was sent in two steps was sent in the first or in the second. -/
theorem newCommands_append (hs : Sends (fun _ => True) w w') (hs' : Sends (fun _ => True) w' w'') :
    newCommands w w'' = newCommands w w' ++ newCommands w' w'' := by
  obtain ⟨new, hnew, -⟩ := hs
  obtain ⟨new', hnew', -⟩ := hs'
  rw [newCommands_of_append hnew, newCommands_of_append hnew']
  rw [hnew, List.append_assoc] at hnew'
  exact newCommands_of_append hnew'

theorem Left.before (h : Left k w' w'') (hs : Sends (fun _ => True) w w')
    (hs' : Sends (fun _ => True) w' w'') : Left k w w'' := by
  obtain ⟨sc, hsc, hk⟩ := h
  refine ⟨sc, ?_, hk⟩
  rw [newCommands_append hs hs']
  exact List.mem_append_right _ hsc

theorem Left.after (h : Left k w w') (hs : Sends (fun _ => True) w w')
    (hs' : Sends (fun _ => True) w' w'') : Left k w w'' := by
  obtain ⟨sc, hsc, hk⟩ := h
  refine ⟨sc, ?_, hk⟩
  rw [newCommands_append hs hs']
  exact List.mem_append_left _ hsc

theorem closePeer_leaves (h : Holding env b w₀ w) (hw : Sound env w)
    (hc : (w.controls c).thread = true) {x : ℕ} (hx : (w.controls c).peers.find? k = some x)
    (code : CloseCode) : Left k w (w.closePeer env c code k) := by
  have hok := (removePeer_effects env (hw.entries c k x hx).live c k code).2
  have hcalls : Calls env (fun _ _ => True) (performing x (removeEffects env x code w))
      (w.removePeer env c k x code) _ :=
    performs_calls (hw.removePeer hx code).channelsSet (fun f hf => ⟨rfl, hf⟩) hok
      fun _ _ _ _ => trivial
  have hmade := ((holding_serves env b w₀).releasePeer h hw hc hx code).made
  have he : w.closePeer env c code k = ((removeEffects env x code w).foldl (World.perform env x)
      (w.removePeer env c k x code)).leaveChannel k := by
    simp only [closePeer, hx]
    rfl
  rw [he]
  obtain ⟨new, hnew, -⟩ := hcalls.sends
  generalize (removeEffects env x code w).foldl (World.perform env x)
    (w.removePeer env c k x code) = u at hmade hnew
  obtain ⟨s, hs⟩ := Option.isSome_iff_exists.mp hmade
  obtain ⟨written, hcommands⟩ : ∃ written, (u.leaveChannel k).commands =
      w.commands ++ (new ++ [⟨none, k, "leavechannel", .obj [("name", .str k)], written⟩]) := by
    simp only [leaveChannel, sendCommand, hs, hnew, List.append_assoc]
    exact ⟨_, rfl⟩
  refine ⟨⟨none, k, "leavechannel", .obj [("name", .str k)], written⟩, ?_, rfl, rfl, rfl⟩
  rw [newCommands_of_append hcommands]
  simp

theorem closePeers_leaves (h : Holding env b w₀ w) (hw : Sound env w)
    (hc : (w.controls c).thread = true) {ids : List String} (hk : k ∈ ids) {x : ℕ}
    (hx : (w.controls c).peers.find? k = some x) (code : CloseCode) :
    Left k w (ids.foldl (World.closePeer env c code) w) := by
  induction ids generalizing w with
  | nil => cases hk
  | cons id ids ih =>
    have ht : Ticks env .free w (w.closePeer env c code id) :=
      closePeer_ticks hw c code id fun _ _ _ => trivial
    have hc' := ht.grows.threads c hc
    have hrest : Ticks env .free (w.closePeer env c code id) _ :=
      closePeers_ticks (ht.sound hw) c code ids fun _ _ => trivial
    by_cases he : id = k
    · subst he
      exact (closePeer_leaves h hw hc hx code).after ht.sends hrest.sends
    · -- the entry is still there for a later round of the loop
      have hx' : ((w.closePeer env c code id).controls c).peers.find? k = some x := by
        have hret : Retains (fun d k' => d = c ∧ k' = id) w _ :=
          closePeer_retains hw code ⟨rfl, rfl⟩
        exact hret.entries c k x (fun hd => he hd.2.symm) hx
      have hleft := ih ((holding_serves env b w₀).closePeer h hw hc code id) (ht.sound hw) hc'
        ((List.mem_cons.mp hk).resolve_left fun hki => he hki.symm) hx'
      exact hleft.before ht.sends hrest.sends

theorem close_leaves (h : Holding env b w₀ w) (hw : Sound env w)
    (hc : (w.controls c).thread = true) {x : ℕ} (hx : (w.controls c).peers.find? k = some x)
    (code : CloseCode) : Left k w (w.close env c code) := by
  have hk : k ∈ (w.controls c).peers.entries.map fun e => (w.insts e.2).remoteId := by
    rw [hw.remoteIds c]
    exact List.mem_map.mpr ⟨(k, x), OrderedMap.mem_entries.mpr hx, rfl⟩
  unfold World.close
  dsimp only
  generalize (w.controls c).peers.entries.map (fun e => (w.insts e.2).remoteId) = ids at hk
  have ht : Ticks env .free w (ids.foldl (World.closePeer env c code) w) :=
    closePeers_ticks hw c code ids fun _ _ => trivial
  have hleft := closePeers_leaves h hw hc hk hx code
  generalize ids.foldl (World.closePeer env c code) w = u at ht hleft
  have hobs : Calls env (fun _ _ => True) nobody u
      (u.observeIfSet env c none (.close (u.controls c).peerName code "")) :=
    observeIfSet_calls (ht.sound hw).channelsSet (Or.inr ⟨_, _, _, rfl⟩) trivial
  exact hleft.after ht.sends (hobs.sends.mono fun _ _ => trivial)

/-- A message that takes an entry out of `peers_` leaves its channel. -/
theorem onMessage_leaves (h : Holding env b w₀ w) (hw : Sound env w) {m : Message}
    (hc : (w.controls m.handler).thread = true) {x : ℕ}
    (hx : (w.controls m.handler).peers.find? k = some x) (hk : k ∈ removedIds env w m) :
    Left k w (w.onMessage env m) := by
  apply onMessage_cases (motive := Left k w) hw hc
  · intro code k' hk'
    rw [hk', List.mem_singleton] at hk
    subst hk
    exact closePeer_leaves h hw hc hx code
  · exact fun code _ _ => close_leaves h hw hc hx code
  · intro v hnone
    rw [hnone] at hk
    cases hk

/-! ### The request on its way -/

/-- The entry is there, and a request to close it, which holds the control, is among
the next `n` messages. -/
structure Asked (c : ℕ) (k : String) (n : ℕ) (w : World) : Prop where
  entry : ∃ x, (w.controls c).peers.find? k = some x
  request : ∃ pre m post, w.queue = pre ++ m :: post ∧ pre.length < n ∧
    m.messageId = .closePeer ∧ m.handler = c ∧ m.data.dataString = k ∧ m.data.ref = true

variable {n : ℕ}

theorem Asked.releases (h : Asked c k n w) : Asked c k n w.releaseControls.releaseInsts := by
  obtain ⟨pre, m, post, hq, hn, hid, hm, hk, href⟩ := h.request
  obtain ⟨x, hx⟩ := h.entry
  have hheld : w.controlHeld m.handler = true := by simp [controlHeld, hq, href]
  obtain ⟨pre', post', hq', hle⟩ := releaseControls_request hheld hq
  refine ⟨⟨x, ?_⟩, pre', m, post', hq', hle.trans_lt hn, hid, hm, hk, href⟩
  have hstays : w.releaseControls.controls c = w.controls c :=
    releaseControls_stays fun hd => by
      rw [hm, hd.2.2] at hheld
      cases hheld
  rw [← hx, ← hstays]
  rfl

theorem Asked.retained (h : Asked c k n w) {R : ℕ → String → Prop} (hr : Retains R w w')
    (hk : ¬ R c k) : Asked c k n w' := by
  obtain ⟨pre, m, post, hq, hn, hm⟩ := h.request
  obtain ⟨x, hx⟩ := h.entry
  obtain ⟨new, hnew, -⟩ := hr.queue
  refine ⟨⟨x, hr.entries c k x hk hx⟩, pre, m, post ++ new, ?_, hn, hm⟩
  rw [hnew, hq]
  simp

/-- Each dispatch brings the request nearer, or leaves the channel. -/
theorem Asked.process (h : Asked c k (n + 1) w) (hold : Holding env b w₀ w) (hw : Reached env w) :
    Asked c k n (w.act env .process) ∨ Left k w (w.act env .process) := by
  obtain ⟨pre, m, post, hq, hn, hm⟩ := h.request
  obtain ⟨x, hx⟩ := h.entry
  obtain ⟨m', queue, hq'⟩ : ∃ m' queue, w.queue = m' :: queue := by
    cases pre with
    | nil => exact ⟨m, post, hq⟩
    | cons m' pre => exact ⟨m', pre ++ m :: post, hq⟩
  have hd : Tick env .free w { w with queue := queue } := .dequeued w m' queue hq'
  have hs := hd.sound hw.toSound
  have hthread := hw.queued m' (by rw [hq']; exact List.mem_cons_self)
  have hold' : Holding env b w₀ { w with queue := queue } :=
    (holding_serves env b w₀).keeps hold _ rfl rfl rfl rfl rfl rfl
  have hact : w.act env .process = World.onMessage env { w with queue := queue } m' := by
    simp only [World.act, World.process, hq']
  rw [hact]
  by_cases hk : m'.handler = c ∧ k ∈ removedIds env { w with queue := queue } m'
  · obtain ⟨rfl, hk⟩ := hk
    have hleft := onMessage_leaves hold' hs hthread hx hk
    exact Or.inr hleft
  · left
    cases pre with
    | nil =>
      obtain ⟨rfl, rfl⟩ : m' = m ∧ queue = post := by simpa [hq'] using hq
      exact absurd ⟨hm.2.1, by simp [removedIds, hm.1, hm.2.2.1]⟩ hk
    | cons m₁ pre =>
      obtain ⟨rfl, rfl⟩ : m' = m₁ ∧ queue = pre ++ m :: post := by simpa [hq'] using hq
      have hask : Asked c k n { w with queue := pre ++ m :: post } :=
        ⟨⟨x, hx⟩, pre, m, post, rfl, by simpa using hn, hm⟩
      exact hask.retained (onMessage_retains hs hthread) fun hr => hk ⟨hr.1.symm, hr.2⟩

theorem step_sends (hw : Reached env w) (a : Action) : Sends (fun _ => True) w (w.step env a) := by
  rcases step_ticks hw (admitted_free env w a) with hs | ⟨-, ht, hs⟩
  · exact .of_eq (by rw [hs])
  · rw [hs]
    have h := ht.sends
    exact h

theorem run_sends (hw : Reached env w) (as : List Action) :
    Sends (fun _ => True) w (Base.run (World.step env) w as) := by
  induction as generalizing w with
  | nil => exact .of_eq rfl
  | cons a as ih => exact (step_sends hw a).trans (ih (hw.step a))

/-- One step of the webrtc thread while the request is on its way. -/
theorem Asked.step (h : Asked c k n w) (hold : Holding env b w₀ w) (hw : Reached env w)
    (running : w.fault = none) (a : Action) :
    Asked c k (n - [a].countP Action.isProcess) (w.step env a) ∨ Left k w (w.step env a) := by
  rw [step_running running]
  by_cases ha : a = .process
  · subst ha
    obtain ⟨n, rfl⟩ : ∃ n', n = n' + 1 := by
      obtain ⟨pre, m, post, -, hlt, -⟩ := h.request
      exact ⟨n - 1, by omega⟩
    exact (h.process hold hw).imp (fun hask => hask.releases) id
  · have hnot : [a].countP Action.isProcess = 0 := by
      cases a <;> simp [Action.isProcess] at ha ⊢
    rw [hnot]
    exact Or.inl (h.retained (act_retains hw ha fun _ _ => False) id).releases

/-- When the next `n` messages have been processed, the channel has been left. -/
theorem Asked.run (h : Asked c k n w) (hold : Holding env b w₀ w) (hw : Reached env w)
    {bs : List Action} (hs : ∀ a ∈ bs, a.Serving) (hn : n ≤ bs.countP Action.isProcess)
    (hf : (Base.run (World.step env) w bs).fault = none) :
    Left k w (Base.run (World.step env) w bs) := by
  induction bs generalizing w n with
  | nil =>
    obtain ⟨pre, m, post, -, hlt, -⟩ := h.request
    simp at hn
    omega
  | cons a bs ih =>
    have running : w.fault = none := running_of_run (a :: bs) hf
    have hold' := (holding_serves env b w₀).step hold hw (hs a List.mem_cons_self)
    rw [run_cons] at hf ⊢
    rcases h.step hold hw running a with hask | hleft
    · have hleft := ih hask hold' (hw.step a) (fun a' ha' => hs a' (List.mem_cons_of_mem a ha'))
        (by rw [List.countP_cons] at hn; rw [List.countP_singleton]; omega) hf
      exact hleft.before (step_sends hw a) (run_sends (hw.step a) bs)
    · exact hleft.after (step_sends hw a) (run_sends (hw.step a) bs)

/-! ### Announcements -/

/-- Of the connections that were there, the one that was to be closed, or each of them,
has its `leavechannel` sent. -/
def Announced (env : Env) (c : ℕ) (id : String) (w w' : World) : Prop :=
  ∀ r, ((w.controls c).peers.find? r).isSome = true → Whole env id ∨ r = id →
    .leave r ∈ newSent w w'

/-- The request of a call for one connection is queued last. -/
theorem asked_of_close (hw : Reached env w) (running : w.fault = none) (hc : w.control = some c)
    (hid : ¬ Whole env k) {x : ℕ} (hx : (w.controls c).peers.find? k = some x) :
    Asked c k (w.queue.length + 1) (w.step env (.api (.close k))) := by
  obtain ⟨-, href, hthread⟩ := hw.installed c hc
  have hact : w.act env (.api (.close k)) = { w with queue := w.queue ++ [⟨c, .closePeer,
      { dataString := k, dataInt32 := some .normal, ref := true }, some x⟩] } := by
    have hid' : ¬ (k = "" ∨ k = env.peerId) := hid
    simp [World.act, World.api, running, World.peerClose, hc, hid', closePeerQueued, World.post,
      hthread, href, hx]
  have hask : Asked c k (w.queue.length + 1) (w.act env (.api (.close k))) := by
    rw [hact]
    exact ⟨⟨x, hx⟩, w.queue, _, [], rfl, by omega, rfl, rfl, rfl, rfl⟩
  rw [step_running running]
  exact hask.releases

theorem Wired.peerClose_whole (h : Wired w) (hc : w.control = some c) {s : Signal}
    (hs : w.signal = some s) (ho : s.opened = true) {id : String} (hid : Whole env id)
    (hf : (w.peerClose env id).fault = none) : Steady false w (w.peerClose env id) := by
  have hid' : id = "" ∨ id = env.peerId := hid
  have he : w.peerClose env id = (w.closeQueued c .normal).signalSyncClose env := by
    simp only [World.peerClose, hc, if_pos hid']
  obtain ⟨hsame, hk⟩ := post_signal c .close { dataInt32 := some .normal } none w
  rw [he] at hf ⊢
  have hq : Wired (w.closeQueued c .normal) := h.post c _ _ _
  have hst := hq.signalSyncClose (hsame.trans hs) ho hf
  have hnone : Sends (fun sc => sc.written = false) w (w.closeQueued c .normal) := .of_eq hk
  exact ⟨hst.holds, hnone.trans hst.sends⟩

theorem peerClose_one (hc : w.control = some c) {s : Signal} (hs : w.signal = some s)
    (ho : s.opened = true) {id : String} (hid : ¬ Whole env id) :
    Steady true w (w.peerClose env id) := by
  have hid' : ¬ (id = "" ∨ id = env.peerId) := hid
  obtain ⟨hsame, hk⟩ := post_signal c .closePeer
    { dataString := id, dataInt32 := some .normal } ((w.controls c).peers.find? id) w
  simp only [World.peerClose, hc, if_neg hid']
  refine .of_eq (fun t ht => ?_) hsame hk
  obtain rfl := Option.some.inj (hs.symm.trans ht)
  exact ho

/-- The call is for one connection, or there is none. -/
def Spared (env : Env) (c : ℕ) (id : String) (w : World) : Prop :=
  ¬ Whole env id ∨ ∀ r, (w.controls c).peers.find? r = none

theorem Steady.newCommands (h : Steady b w w') : ∀ sc ∈ newCommands w w', sc.written = b := by
  obtain ⟨new, hnew, hb⟩ := h.sends
  rwa [newCommands_of_append hnew]

/-- Closing the session leaves no channel that the server hears of. -/
theorem spared_of_announced (hw : Reached env w) (h : Wired w) (hc : w.control = some c)
    {s : Signal} (hs : w.signal = some s) (ho : s.opened = true) {id : String} {bs : List Action}
    (hb : ∀ a ∈ bs, a.Serving)
    (hf : (run (World.step env) (w.step env (.api (.close id))) bs).fault = none)
    (ha : Announced env c id w (run (World.step env) (w.step env (.api (.close id))) bs)) :
    Spared env c id w := by
  have running : w.fault = none := running_of_run (.api (.close id) :: bs) hf
  by_cases hid : Whole env id
  swap
  · exact Or.inl hid
  right
  intro r
  by_contra hr
  have hclose : Holding env false w (w.step env (.api (.close id))) :=
    h.close_holding hc running (h.peerClose_whole hc hs ho hid)
  have hend := (holding_serves env false w).run hclose (hw.step _) hb
  have hsends := (step_sends hw (.api (.close id))).trans (run_sends (hw.step _) bs)
  obtain ⟨sc, hsc, -, hwritten⟩ := (h.leave_sent hend.toLinked hsends).mp
    (ha r (Option.isSome_iff_ne_none.mpr hr) (Or.inl hid))
  have hdropped := (hend.steady hf fun hb => by cases hb).newCommands sc hsc
  rw [hwritten] at hdropped
  cases hdropped

/-- Closing a connection announces it, as long as no handler closes the session. -/
theorem announced_of_spared (hw : Reached env w) (h : Wired w) (hc : w.control = some c)
    {s : Signal} (hs : w.signal = some s) (ho : s.opened = true) {id : String} {bs : List Action}
    (hb : ∀ a ∈ bs, a.Serving) (hn : w.queue.length < bs.countP Action.isProcess)
    (hf : (run (World.step env) (w.step env (.api (.close id))) bs).fault = none)
    (hlets : LetsBe env w (run (World.step env) (w.step env (.api (.close id))) bs))
    (hspared : Spared env c id w) :
    Announced env c id w (run (World.step env) (w.step env (.api (.close id))) bs) := by
  have running : w.fault = none := running_of_run (.api (.close id) :: bs) hf
  intro r hr hwhich
  obtain ⟨x, hx⟩ := Option.isSome_iff_exists.mp hr
  have hid : ¬ Whole env id := hspared.resolve_right fun hnone => by
    rw [hnone r] at hx
    cases hx
  obtain rfl := hwhich.resolve_left hid
  have hclose : Holding env true w (w.step env (.api (.close r))) :=
    h.close_holding hc running fun _ => peerClose_one hc hs ho hid
  have hask := asked_of_close hw running hc hid hx
  have hleft := hask.run hclose (hw.step _) hb hn hf
  obtain ⟨sc, hsc, hleaves⟩ := hleft.before (step_sends hw _) (run_sends (hw.step _) bs)
  have hend := (holding_serves env true w).run hclose (hw.step _) hb
  have hsends := (step_sends hw (.api (.close r))).trans (run_sends (hw.step _) bs)
  exact (h.leave_sent hend.toLinked hsends).mpr
    ⟨sc, hsc, hleaves, (hend.steady hf fun _ => hlets).newCommands sc hsc⟩

/-- In every run, when the user calls `Close` while the signal connection is open and
the messages queued then have been processed, in any order with callbacks and commands
of the server: unless a handler has closed the session meanwhile, the connections that
the call was to close are announced exactly when the call is for one connection or
there is none. No handler can make up for a close of the session. -/
theorem leave_announced_iff (env : Env) (as bs : List Action) (c : ℕ) (id : String)
    (hc : (run (World.step env) init as).control = some c)
    (ho : (run (World.step env) init as).signal.any Signal.opened = true)
    (hb : ∀ a ∈ bs, a.Serving)
    (hn : (run (World.step env) init as).queue.length < bs.countP Action.isProcess)
    (hf : (run (World.step env) init (as ++ .api (.close id) :: bs)).fault = none) :
    (LetsBe env (run (World.step env) init as)
        (run (World.step env) init (as ++ .api (.close id) :: bs)) →
      (Announced env c id (run (World.step env) init as)
          (run (World.step env) init (as ++ .api (.close id) :: bs)) ↔
        Spared env c id (run (World.step env) init as))) ∧
    (Announced env c id (run (World.step env) init as)
        (run (World.step env) init (as ++ .api (.close id) :: bs)) →
      Spared env c id (run (World.step env) init as)) := by
  have hw := reached_run env as
  rw [run_append, run_cons] at hf ⊢
  have hwired : Wired (run (World.step env) init as) :=
    wired_of_running (running_of_run (.api (.close id) :: bs) hf)
  generalize run (World.step env) init as = w at *
  obtain ⟨s, hs, hopened⟩ := (Option.any_eq_true _ _).mp ho
  have hto := spared_of_announced hw hwired hc hs hopened hb hf
  exact ⟨fun hlets => ⟨hto, announced_of_spared hw hwired hc hs hopened hb hn hf hlets⟩, hto⟩

/-- The user closes the connection to "b". -/
theorem leave_announced_peer :
    ((run (World.step (.idle "a" (by decide))) init offering).controls 0).peers.find? "b" = some 0 ∧
    Announced (.idle "a" (by decide)) 0 "b" (run (World.step (.idle "a" (by decide))) init offering)
      (run (World.step (.idle "a" (by decide))) init
        (offering ++ [.api (.close "b"), .process])) := by
  refine ⟨by decide +kernel, ?_⟩
  refine ((leave_announced_iff (.idle "a" (by decide)) offering [.process] 0 "b" (by decide +kernel)
    (by decide +kernel) (by simp [Action.Serving]) (by decide +kernel) (by decide +kernel)).1
      ?_).mpr (Or.inl ?_)
  · intro os session source e _ _ id _
    exact List.not_mem_nil
  · simp [Whole, Env.idle]

/-- The user closes the session with the connection to "b" in it. -/
theorem leave_unannounced :
    (run (World.step (.polite "a" (by decide))) init offering).control = some 0 ∧
    (run (World.step (.polite "a" (by decide))) init offering).signal.any Signal.opened = true ∧
    (run (World.step (.polite "a" (by decide))) init
      (offering ++ [.api (.close ""), .process])).queue = [] ∧
    (run (World.step (.polite "a" (by decide))) init
      (offering ++ [.api (.close ""), .process])).fault = none ∧
    ¬ Announced (.polite "a" (by decide)) 0 ""
      (run (World.step (.polite "a" (by decide))) init offering)
      (run (World.step (.polite "a" (by decide))) init
        (offering ++ [.api (.close ""), .process])) := by
  refine ⟨by decide +kernel, by decide +kernel, ?_, by decide +kernel, fun h => ?_⟩
  · exact List.isEmpty_iff.mp (by decide +kernel)
  · have hb := h "b" (by decide +kernel) (Or.inl (Or.inl rfl))
    have hnone : (newSent (run (World.step (.polite "a" (by decide))) init offering)
        (run (World.step (.polite "a" (by decide))) init
          (offering ++ [.api (.close ""), .process]))).isEmpty = true := by decide +kernel
    rw [List.isEmpty_iff.mp hnone] at hb
    cases hb

end World

end PeerApi
