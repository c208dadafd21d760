import PeerApi.Session.Ownership

/-! What a queued close request hits. `ClosePeer` finds the connection by its id when
the request is processed, so a request meant for one connection closes another one
that was started under the same id in the meantime. Requests hit what they were
meant for if an id is started only when `peers_` has no entry for it and no request
for it is waiting. -/

namespace PeerApi

/-- A close request of control `c` for the given id, meant for some instance. -/
def Message.RequestFor (c : ℕ) (id : String) (m : Message) : Prop :=
  m.messageId = .closePeer ∧ m.handler = c ∧ m.data.dataString = id ∧ m.origin.isSome = true

instance (c : ℕ) (id : String) (m : Message) : Decidable (m.RequestFor c id) := by
  unfold Message.RequestFor
  infer_instance

namespace World

open Base Relation PeerControl

variable {env : Env} {G : Guard} {w w' : World}

/-- The registry has at most the instance that each queued request is meant for. -/
def Requests (w : World) : Prop :=
  ∀ m ∈ w.queue, m.messageId = .closePeer → ∀ x y, m.origin = some x →
    (w.controls m.handler).peers.find? m.data.dataString = some y → y = x

/-- The control has not been destroyed. -/
def Alive (w : World) (c : ℕ) : Prop := (w.controls c).destroyed = false

theorem fading_alive : Fading Alive := fun _ _ c hg _ h => (hg.destroyed c).symm.trans h

theorem Requests.same (hr : Requests w) (hq : ∀ m ∈ w'.queue, m ∈ w.queue)
    (hp : ∀ {c k x}, (w'.controls c).peers.find? k = some x → (w.controls c).peers.find? k = some x) :
    Requests w' :=
  fun m hm hid x y hx hy => hr m (hq m hm) hid x y hx (hp hy)

/-- Close requests are posted for the registered instance, or by an instance that is
open and therefore registered. -/
theorem Requests.move {src : ℕ → Effect → Prop} (h : Move env src w w') (hr : Requests w)
    (ho : Owned Alive w)
    (hsrc : ∀ x id code, src x (.closePeer id code) → x < w.nextInst ∧ (w.insts x).state ≠ .closed) :
    Requests w' := by
  have same := h.same
  have keep (hq : w'.queue = w.queue) : Requests w' :=
    hr.same (fun m hm => hq ▸ hm) fun {c k x} hx => by rwa [← same.peers]
  cases h with
  | post m thread ref ok =>
    intro m' hm' hid x y hx hy
    rcases List.mem_append.mp hm' with hm' | hm'
    · exact hr m' hm' hid x y hx hy
    obtain rfl : m' = m := List.mem_singleton.mp hm'
    simp only [PostOk, hid] at ok
    rcases ok with ok | ⟨z, code, hz, horigin, hcontrol, hremote, halive⟩
    · exact Option.some.inj (hy.symm.trans (ok.symm.trans hx))
    · obtain rfl : z = x := Option.some.inj (horigin.symm.trans hx)
      obtain ⟨hlt, hstate⟩ := hsrc z _ code hz
      have hown := ho z hlt hstate (by rw [hcontrol]; exact halive)
      rw [hcontrol, hremote] at hown
      exact Option.some.inj (hy.symm.trans hown)
  | _ => exact keep rfl

theorem Requests.event {c : ℕ} {source : Option ℕ} {e : Event} (h : EventMoves env c source e w w')
    (hr : Requests w) (ho : Owned Alive w) (hw : Sound env w) : Requests w' := by
  refine (calls_invariant (P := fun w => Requests w ∧ Owned Alive w ∧ Sound env w)
    (fun {w w'} h hw => ?_) h ⟨hr, ho, hw⟩).1
  obtain ⟨hr, ho, hw⟩ := hw
  refine ⟨?_, Owned.same fading_alive ho hw h.grows h.same, h.sound hw⟩
  cases h with
  | move h => exact hr.move h ho fun _ _ _ hn => hn.elim
  | observer => exact hr
  | handler => exact hr
  | closed session he => exact hr
  | closeOnce b he => exact hr
  | dropped d hd he =>
    refine hr.same (fun _ h => h) fun {c k x} hx => ?_
    have hp := modifyControl_keeps (·.peers)
      (g := fun k => { k with observer := false, ref := false }) (fun _ => rfl) d c w
    exact (congrArg (OrderedMap.find? · k) hp).symm.trans hx

theorem Requests.calls {raises : ℕ → Event → Prop} {src : ℕ → Effect → Prop}
    (h : Calls env raises src w w') (hr : Requests w) (ho : Owned Alive w) (hw : Sound env w)
    (hsrc : ∀ x id code, src x (.closePeer id code) → x < w.nextInst ∧ (w.insts x).state ≠ .closed) :
    Requests w' := by
  refine (calls_invariant (P := fun w => Requests w ∧ Owned Alive w ∧ Sound env w ∧
    ∀ x id code, src x (.closePeer id code) → x < w.nextInst ∧ (w.insts x).state ≠ .closed)
    (fun {w w'} h hw => ?_) h ⟨hr, ho, hw, hsrc⟩).1
  obtain ⟨hr, ho, hw, hsrc⟩ := hw
  refine ⟨?_, Owned.same fading_alive ho hw h.grows h.same, h.sound hw, ?_⟩
  · cases h with
    | move h => exact hr.move h ho hsrc
    | event c source e running set ok admits moves => exact hr.event moves ho hw
  · rw [h.same.insts, h.same.nextInst]
    exact hsrc

theorem removeEffects_late (hq : env.Quiet) {x : ℕ} (hl : (w.insts x).Live) (code : CloseCode) :
    ∀ f ∈ removeEffects env x code w, f.Late := by
  intro f hf
  simp only [removeEffects, hl.close_eq, List.mem_cons, List.cons_append, List.mem_append,
    List.not_mem_nil, or_false] at hf
  rcases hf with rfl | rfl | hf | rfl
  · trivial
  · trivial
  · exact (callbacks_late (Or.inl rfl) (hq x) f hf).1
  · trivial

/-- The guard of a quiet step that starts an id only when it is free and no request
for it is queued. -/
def requestGuard : Guard :=
  freshGuard (fun _ _ => True) (fun w d id => ∀ m ∈ w.queue, ¬ m.RequestFor d id)
    (fun _ _ _ _ _ h => h)

theorem requestGuard_careful : requestGuard.Careful := freshGuard_careful _

theorem Requests.tick (hq : env.Quiet) (h : Tick env requestGuard w w') (hr : Requests w)
    (hw : Tended env Alive w) : Requests w' := by
  cases h with
  | call h =>
    exact hr.calls (.single h) hw.owned hw.toSound fun _ _ _ hn => hn.elim
  | dequeued m queue h =>
    exact hr.same (fun m' hm' => h ▸ List.mem_cons_of_mem m hm') fun hx => hx
  | received c message origin thread ok =>
    intro m hm hid x y hx hy
    rcases List.mem_append.mp hm with hm | hm
    · exact hr m hm hid x y hx hy
    · rw [List.mem_singleton.mp hm] at hid
      cases hid
  | callback x cb hx alive started report h =>
    -- the instance that asks is open, before and after the callback
    have hset := hw.tick hq fading_alive requestGuard_careful
      (.callback x cb hx alive started report .refl)
    have hr' : Requests (w.setInst x (logged ((w.insts x).callback cb))) := hr
    refine hr'.calls h hset.owned hset.toSound ?_
    rintro y id code ⟨rfl, hmem⟩
    obtain ⟨-, hne, hstate⟩ := callback_closePeer hmem
    refine ⟨hx, ?_⟩
    rw [setInst_insts_self]
    exact fun hc => hne (hstate.symm.trans hc)
  | answered c k x sdp origin h from_ => exact hr
  | candidate c k x sdpMid sdpMlineIndex candidate h => exact hr
  | closed c k x code h calls =>
    have hset := hw.tick hq fading_alive requestGuard_careful (.closed c k x code h .refl)
    have hr' : Requests (w.removePeer env c k x code) := by
      refine hr.same (fun _ h => h) fun {d k' y} hy => ?_
      rw [removePeer_find?] at hy
      split_ifs at hy
      exact hy
    refine hr'.calls calls hset.owned hset.toSound ?_
    rintro y id code' ⟨rfl, hmem⟩
    exact (removeEffects_late hq (hw.entries c k y h).live code _ hmem).elim
  | registered c p ids thread new starts =>
    intro m hm hid x y hx hy
    rw [register_find?] at hy
    split_ifs at hy with hdk
    · exact absurd ⟨hid, hdk.1, hdk.2, by rw [hx]; rfl⟩
        ((starts.2 _ List.mem_cons_self).2 m hm)
    · exact hr m hm hid x y hx hy
  | rejected c remoteId thread failed => exact hr

/-! ### What a request does to other instances -/

/-- `ClosePeer` does nothing to an instance other than the one it finds. -/
theorem closePeer_other (hw : Sound env w) (c : ℕ) (code : CloseCode) (k : String) {y : ℕ}
    (hy : (w.controls c).peers.find? k ≠ some y) :
    (w.closePeer env c code k).insts y = w.insts y ∧
      Observes (·.source ≠ some y) w (w.closePeer env c code k) := by
  cases hx : (w.controls c).peers.find? k with
  | none =>
    simp only [closePeer, hx]
    exact ⟨trivial, .of_eq rfl⟩
  | some x =>
    have hne : y ≠ x := by
      rintro rfl
      exact hy hx
    have hcalls := closePeer_calls hw hx code
    refine ⟨?_, hcalls.observes.mono fun o ho hsource => ?_⟩
    · rw [hcalls.same.insts]
      exact setInst_insts_ne hne _ _
    · obtain ⟨f, hf, -⟩ := ho y hsource
      exact hne hf.1

/-! ### Runs -/

/-- WebRTC is quiet after a release, and an id is started only when it is not in
`peers_`, no request for it is queued, and once in one command. -/
def Unrequested (env : Env) (w : World) : Action → Prop
  | .callback x cb => (w.insts x).QuietReport cb
  | .process => ∀ m ∈ w.queue.head?, (startedIds env w m).Nodup ∧
      ∀ id ∈ startedIds env w m, (w.controls m.handler).peers.find? id = none ∧
        ∀ m' ∈ w.queue, ¬ m'.RequestFor m.handler id
  | _ => True

instance (env : Env) (w : World) : (a : Action) → Decidable (Unrequested env w a)
  | .callback x cb => inferInstanceAs (Decidable ((w.insts x).peerConnection = false → cb.Quiet))
  | .process => inferInstanceAs (Decidable (∀ m ∈ w.queue.head?, (startedIds env w m).Nodup ∧
      ∀ id ∈ startedIds env w m, (w.controls m.handler).peers.find? id = none ∧
        ∀ m' ∈ w.queue, ¬ m'.RequestFor m.handler id))
  | .api _ => inferInstanceAs (Decidable True)
  | .command _ _ => inferInstanceAs (Decidable True)
  | .net _ => inferInstanceAs (Decidable True)

theorem Unrequested.admitted {a : Action} (ha : Unrequested env w a) :
    Admitted env requestGuard w a := by
  cases a with
  | callback x cb => exact ⟨ha, fun _ _ => trivial⟩
  | process =>
    intro m queue hqueue
    obtain ⟨hnodup, hall⟩ := ha m (by rw [hqueue]; rfl)
    refine ⟨⟨hnodup, fun id hid => ⟨(hall id hid).1, fun m' hm' => ?_⟩⟩, fun _ _ => trivial,
      fun _ _ _ _ _ _ => trivial, fun _ _ _ _ _ => trivial⟩
    exact (hall id hid).2 m' (by rw [hqueue]; exact List.mem_cons_of_mem m hm')
  | _ => trivial

theorem Requests.releases (hr : Requests w) : Requests w.releaseControls.releaseInsts :=
  hr.same (fun _ hm => releaseControls_queue hm) fun hx => releaseControls_find? hx

theorem Tended.step_alive (hq : env.Quiet) (hreach : Reached env w) {a : Action}
    (ha : Admitted env requestGuard w a) (hw : Tended env Alive w) (hr : Requests w) :
    Tended env Alive (w.step env a) ∧ Requests (w.step env a) := by
  rcases step_ticks hreach ha with h | ⟨-, ht, h⟩
  · rw [h]
    exact ⟨hw, hr⟩
  · rw [h]
    obtain ⟨hw', hr'⟩ := calls_invariant (P := fun w => Tended env Alive w ∧ Requests w)
      (fun h hw => ⟨hw.1.tick hq fading_alive requestGuard_careful h, hw.2.tick hq h hw.1⟩) ht ⟨hw, hr⟩
    refine ⟨hw'.releases hq fun x hx hs halive => ?_, hr'.releases⟩
    have hnd : ¬ (w.act env a).Dying ((w.act env a).insts x).control := by
      intro hd
      have : ((w.act env a).releaseControls.controls _).destroyed = false := halive
      rw [releaseControls_dying hd] at this
      cases this
    refine ⟨hnd, ?_⟩
    have halive' : ((w.act env a).releaseControls.controls _).destroyed = false := halive
    rwa [releaseControls_stays hnd] at halive'

theorem requests_run (hq : env.Quiet) {as : List Action}
    (ha : Along (step env) (Unrequested env) init as) : Requests (run (step env) init as) := by
  have h := ha.invariant (P := fun w => Reached env w ∧ Tended env Alive w ∧ Requests w)
    (fun w a hw hr => ⟨hw.1.step a, hw.2.1.step_alive hq hw.1 hr.admitted hw.2.2⟩)
    ⟨reached_init env, ⟨sound_init env, fun x hx => (by cases hx), fun x hx => (by cases hx)⟩,
      fun m hm => (by cases hm)⟩
  exact h.2.2

/-- A request that instance `x` queued, or that the user queued while `x` was
registered, leaves every other instance as it is and raises no event of it. -/
theorem closePeer_hits_origin (env : Env) (hq : env.Quiet) (as : List Action)
    (ha : Along (step env) (Unrequested env) init as) (m : Message) (queue : List Message)
    (hqueue : (run (step env) init as).queue = m :: queue) (hm : m.messageId = .closePeer) (x : ℕ)
    (hx : m.origin = some x) (y : ℕ) (hy : y ≠ x) :
    (((run (step env) init as).step env .process).insts y).state =
      ((run (step env) init as).insts y).state ∧
    (((run (step env) init as).step env .process).insts y).log =
      ((run (step env) init as).insts y).log ∧
    Observes (·.source ≠ some y) (run (step env) init as)
      ((run (step env) init as).step env .process) := by
  have hw := reached_run env as
  have hreq := requests_run hq ha
  generalize run (step env) init as = w at hqueue hw hreq
  have hfind : (w.controls m.handler).peers.find? m.data.dataString ≠ some y :=
    fun h => hy (hreq m (by rw [hqueue]; exact List.mem_cons_self) hm x y hx h)
  have hsound : Sound env { w with queue := queue } :=
    (Tick.dequeued w m queue hqueue : Tick env .free w _).sound hw.toSound
  have hact : w.act env .process = closePeer env m.handler
      (m.data.dataInt32.getD env.indeterminate) { w with queue := queue } m.data.dataString := by
    simp only [act, process, hqueue, onMessage, hm]
  obtain ⟨hinst, hobs⟩ := closePeer_other (w := { w with queue := queue }) hsound m.handler
    (m.data.dataInt32.getD env.indeterminate) m.data.dataString hfind
  unfold step
  split_ifs
  · exact ⟨rfl, rfl, .of_eq rfl⟩
  · rw [hact]
    refine ⟨?_, ?_, hobs⟩
    · exact (releaseInsts_keeps (·.state) (fun _ => rfl) y).trans (congrArg (·.state) hinst)
    · exact (releaseInsts_keeps (·.log) (fun _ => rfl) y).trans (congrArg (·.log) hinst)

/-- Two connections, and a request of the user to close the first. -/
def requested : List Action :=
  [.api .open, .net (.connectInternal true), .net (.onOpen 0),
    .command (createOfferMessage ["b", "c"]) none, .process, .api (.close "b")]

theorem requested_queue : (run (step (Env.idle "a" (by decide))) init requested).queue ≠ [] :=
  List.ne_nil_of_length_pos (by decide +kernel)

theorem closePeer_hits_origin_requested :
    (((run (step (Env.idle "a" (by decide))) init requested).step (Env.idle "a" (by decide))
      .process).insts 1).state = .connecting := by
  have h := closePeer_hits_origin (Env.idle "a" (by decide)) (fun _ _ h => by cases h) requested
    (by decide +kernel) _ _ (List.cons_head_tail requested_queue).symm (by decide +kernel) 0
    (by decide +kernel) 1 (by decide)
  exact h.1.trans (by decide +kernel)

/-- Both ICE states of a lost connection are reported, and between them the server
asks for a new offer to the same peer. -/
def reofferedWhileClosing : List Action :=
  [.api .open, .net (.connectInternal true), .net (.onOpen 0),
    .command (createOfferMessage ["b"]) none, .process,
    .callback 0 (.onIceConnectionChange .disconnected),
    .command (createOfferMessage ["b"]) none,
    .callback 0 (.onIceConnectionChange .closed), .process, .process]

/-- The second request of the lost connection closes the new one. -/
theorem reofferedWhileClosing_hit :
    ((run (step (Env.idle "a" (by decide))) init reofferedWhileClosing).queue.map fun m =>
      (m.messageId, m.data.dataString, m.origin)) = [(.closePeer, "b", some 0)] ∧
    ((run (step (Env.idle "a" (by decide))) init reofferedWhileClosing).insts 1).state = .connecting ∧
    ((run (step (Env.idle "a" (by decide))) init
      (reofferedWhileClosing ++ [.process])).insts 1).state = .closed ∧
    .observer 0 (some 1) (.close "b" .goingAway "") ∈
      (run (step (Env.idle "a" (by decide))) init (reofferedWhileClosing ++ [.process])).obs := by
  decide +kernel

end World

end PeerApi
