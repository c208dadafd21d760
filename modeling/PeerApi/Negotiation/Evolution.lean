import PeerApi.Negotiation.Net
import PeerApi.Session.CloseRequests

/-! What a step of one peer does to what its negotiations depend on: the role and the
origin of its instances, its registry, the descriptions it is going to send or has
sent, the answers it has applied and the commands in its queue. A step is told which
messages it handles and on which condition it may start an object. -/

namespace PeerApi.Negotiation

open Base World PeerControl Relation

/-- What an operation on an object leaves alone. -/
structure SameOrigin (p q : PeerControl) : Prop where
  remoteId : q.remoteId = p.remoteId
  role : q.role = p.role
  origin : q.origin = p.origin

theorem SameOrigin.refl (p : PeerControl) : SameOrigin p p := ⟨rfl, rfl, rfl⟩

/-- The instance was started to make a description of the given type. -/
def HasRole (w : World) (type : SdpType) (x : ℕ) : Prop :=
  x < w.nextInst ∧ (w.insts x).role = some type

/-- The change of a world while the given messages are handled. A new object is for the
given id and is started only if `free` holds; one that answers has its origin from one
of the messages. -/
structure Evolves (env : Env) (id : String) (held : List (Json × Option ℕ)) (free : Prop)
    (w w' : World) : Prop where
  insts : w.nextInst ≤ w'.nextInst
  same : ∀ x, x < w.nextInst → SameOrigin (w.insts x) (w'.insts x)
  fresh : ∀ x, w.nextInst ≤ x → x < w'.nextInst → (w'.insts x).log = [] ∧
    ((w'.insts x).role.isSome = true → (w'.insts x).remoteId = id) ∧
    ((w'.insts x).role = some .answer → ∃ message,
      (message, (w'.insts x).origin) ∈ held ∧ carries env .offer message = true)
  peers : ∀ {c k r}, (w'.controls c).peers.find? k = some r →
    (w.controls c).peers.find? k = some r ∨ (r = w.nextInst ∧ free)
  describing : ∀ {type x}, Describing w' type x →
    Describing w type x ∨ (x = w.nextInst ∧ free)
  answered : ∀ {x o}, x < w.nextInst → .answered o ∈ (w'.insts x).log →
    .answered o ∈ (w.insts x).log ∨ ((∃ c k, (w.controls c).peers.find? k = some x) ∧
      ∃ message, (message, o) ∈ held ∧ carries env .answer message = true)
  queue : ∀ m ∈ w'.incoming, m ∈ w.incoming ∨ m ∈ held
  sends : Sends (fun sc => ∀ type, sc.command = descriptionCommand type →
    ∃ x, sc.source = some x ∧ Describing w type x) w w'

section

variable {env : Env} {id : String} {G : Guard} {held : List (Json × Option ℕ)} {free : Prop}
  {w w₁ w' : World}

theorem Describing.hasRole (hw : Sound env w) {type : SdpType} {x : ℕ}
    (h : Describing w type x) : HasRole w type x := by
  refine ⟨h.1, ?_⟩
  rcases hw.insts x h.1 with hs | hr
  · exact hs.pending type h.2.1
  · have := hr.pending.symm.trans h.2.1
    cases this

/-- A world with the same objects, registry and commands. -/
theorem Evolves.of_same (hi : w'.insts = w.insts) (hn : w'.nextInst = w.nextInst)
    (hp : ∀ {c k r}, (w'.controls c).peers.find? k = some r → (w.controls c).peers.find? k = some r)
    (hq : ∀ m ∈ w'.incoming, m ∈ w.incoming ∨ m ∈ held) (hc : w'.commands = w.commands) :
    Evolves env id held free w w' where
  insts := hn.ge
  same x _ := by rw [hi]; exact .refl _
  fresh _ hx hx' := absurd hx' (Nat.not_lt_of_le (hn ▸ hx))
  peers h := Or.inl (hp h)
  describing h := Or.inl (by simpa only [Describing, hi, hn] using h)
  answered _ h := Or.inl (by rwa [hi] at h)
  queue := hq
  sends := .of_eq hc

theorem Evolves.refl (w : World) : Evolves env id held free w w :=
  .of_same rfl rfl (fun h => h) (fun _ h => Or.inl h) rfl

/-! ### Calls -/

theorem descriptionCommand_injective {t t' : SdpType}
    (h : descriptionCommand t = descriptionCommand t') : t = t' := by
  cases t <;> cases t' <;> simp_all [descriptionCommand]

/-- Calls send descriptions only for the instance that performs them. -/
theorem Evolves.calls {raises : ℕ → Event → Prop} {src : ℕ → Effect → Prop}
    (h : Evolves env id held free w w₁) (hcommands : w₁.commands = w.commands)
    (hcalls : Calls env raises src w₁ w')
    (hsrc : ∀ x channel type data, src x (.sendCommand channel (descriptionCommand type) data) →
      Describing w type x) : Evolves env id held free w w' := by
  have same := hcalls.same
  refine ⟨by rw [same.nextInst]; exact h.insts, fun x hx => by rw [same.insts]; exact h.same x hx,
    fun x hx hx' => by rw [same.insts]; exact h.fresh x hx (same.nextInst ▸ hx'),
    fun hr => h.peers (same.peers _ ▸ hr), fun {type x} hd => ?_, fun {x o} hx ho => ?_,
    fun m hm => h.queue m (hcalls.incoming ▸ hm), ?_⟩
  · simp only [Describing, same.insts, same.nextInst] at hd
    exact h.describing hd
  · rw [same.insts] at ho
    exact h.answered hx ho
  · obtain ⟨new, hnew, hok⟩ := hcalls.sends
    refine ⟨new, hcommands ▸ hnew, fun sc hsc type hcommand => ?_⟩
    have ok := hok sc hsc
    unfold CommandOk at ok
    split at ok
    next =>
      rw [hcommand] at ok
      cases type <;> simp [descriptionCommand] at ok
    next x hx =>
      rw [hcommand] at ok
      exact ⟨x, hx, hsrc x _ type _ ok.1⟩

theorem Evolves.setInst {x : ℕ} {q : PeerControl} (hs : SameOrigin (w.insts x) q)
    (hd : ∀ type, q.pending = some type → q.state = .connecting →
      (w.insts x).pending = some type ∧ (w.insts x).state = .connecting)
    (ha : ∀ o, .answered o ∈ q.log →
      .answered o ∈ (w.insts x).log ∨ ((∃ c k, (w.controls c).peers.find? k = some x) ∧
        ∃ message, (message, o) ∈ held ∧ carries env .answer message = true)) :
    Evolves env id held free w (w.setInst x q) := by
  have hrefl : Evolves env id held free w w := .refl w
  refine { hrefl with same := ?_, describing := ?_, answered := ?_, fresh := ?_ }
  · intro y hy
    by_cases hyx : y = x
    · subst hyx
      rwa [setInst_insts_self]
    · rw [setInst_insts_ne hyx]
      exact .refl _
  · exact fun y hy hy' => absurd hy' (Nat.not_lt_of_le hy)
  · refine fun {type y} h => Or.inl ?_
    by_cases hyx : y = x
    · subst hyx
      simp only [Describing, setInst_insts_self] at h
      exact ⟨h.1, hd type h.2.1 h.2.2⟩
    · simp only [Describing, setInst_insts_ne hyx] at h
      exact h
  · intro y o hy h
    by_cases hyx : y = x
    · subst hyx
      rw [setInst_insts_self] at h
      exact ha o h
    · rw [setInst_insts_ne hyx] at h
      exact Or.inl h

/-! ### Callbacks and closes -/

theorem callback_answered (p : PeerControl) (cb : Callback) (o : Option ℕ) :
    Effect.answered o ∉ (p.callback cb).2 := by
  have hr := callback_raises p cb
  generalize (p.callback cb).1 = q, (p.callback cb).2 = es at hr
  cases hr <;> simp

theorem callbacks_answered (p : PeerControl) (cbs : List Callback) (o : Option ℕ) :
    Effect.answered o ∉ (p.callbacks cbs).2 := by
  induction cbs generalizing p with
  | nil => simp [callbacks]
  | cons cb cbs ih =>
    intro h
    rcases List.mem_append.mp h with h | h
    · exact callback_answered p cb o h
    · exact ih _ h

/-- An object sends its description only when it waits for it and is connecting. -/
theorem callback_described {p : PeerControl} {cb : Callback} {peerId : String} {type : SdpType}
    {data : Json}
    (h : Effect.sendCommand peerId (descriptionCommand type) data ∈ (p.callback cb).2) :
    p.pending = some type ∧ p.state = .connecting := by
  have hr := callback_raises p cb
  generalize (p.callback cb).1 = q, (p.callback cb).2 = es at hr h
  cases hr with
  | described type' sdp q connecting pending state =>
    simp only [List.mem_singleton, Effect.sendCommand.injEq] at h
    rw [descriptionCommand_injective h.2.1]
    exact ⟨pending, connecting⟩
  | candidate => cases type <;> simp [descriptionCommand] at h
  | _ => simp at h


theorem Evolves.callback (x : ℕ) (cb : Callback) :
    Evolves env id held free w (w.setInst x (logged ((w.insts x).callback cb))) := by
  have hk := callback_keeps (w.insts x) cb
  refine .setInst ⟨hk.remoteId, hk.role, hk.origin⟩ (fun type hp hs => ?_) fun o ho => Or.inl ?_
  · simp only [logged] at hp hs
    have hp' : (w.insts x).pending = some type := by
      rcases hk.pending with h | h
      · exact h.symm.trans hp
      · rw [h] at hp
        cases hp
    have hs' : (w.insts x).state = .connecting := by
      rcases hk.state with h | h
      · exact h.symm.trans hs
      · rw [h] at hs
        cases hs
    exact ⟨hp', hs'⟩
  · simp only [logged, hk.log] at ho
    exact (List.mem_append.mp ho).resolve_right (callback_answered _ cb o)

theorem removeEffects_answered {x : ℕ} (hl : (w.insts x).Live) (code : CloseCode) (o : Option ℕ) :
    Effect.answered o ∉ removeEffects env x code w := by
  intro h
  simp only [removeEffects, hl.close_eq, List.cons_append, List.mem_cons, List.mem_append,
    List.not_mem_nil, or_false, reduceCtorEq, false_or] at h
  exact callbacks_answered _ _ o h

theorem Evolves.removePeer (hw : Sound env w) {c : ℕ} {k : String} {x : ℕ}
    (h : (w.controls c).peers.find? k = some x) (code : CloseCode) :
    Evolves env id held free w (w.removePeer env c k x code) := by
  have hl := (hw.entries c k x h).live
  have hset : Evolves env id held free (w.modifyControl c fun q => { q with peers := q.peers.erase k })
      (w.removePeer env c k x code) := by
    refine .setInst ⟨?_, ?_, ?_⟩ (fun type hp hstate => ?_) fun o ho => Or.inl ?_
    · exact (hl.close_same code _).remoteId
    · exact (hl.close_same code _).role
    · exact (hl.close_same code _).origin
    · simp [logged, hl.close_eq] at hstate
    · have hlog : ((w.insts x).close code (env.onRelease x)).1.log = (w.insts x).log := by
        rw [hl.close_eq]
        exact (callbacks_keeps (w.insts x).closingPeer _).log
      simp only [logged, hlog] at ho
      exact (List.mem_append.mp ho).resolve_right (removeEffects_answered hl code o)
  refine { hset with peers := fun hr => Or.inl ?_, answered := fun hx ho => ?_ }
  · rw [removePeer_find?] at hr
    split_ifs at hr
    exact hr
  · refine (hset.answered hx ho).imp_right fun h => ⟨?_, h.2⟩
    obtain ⟨d, k', hy⟩ := h.1
    rw [erase_find?] at hy
    split_ifs at hy
    exact ⟨d, k', hy⟩

/-- Starting an object. -/
theorem Evolves.register {c : ℕ} {q : PeerControl} (hb : Begun q c) (hfree : free)
    (hid : q.remoteId = id) (horigin : q.role = some .answer → ∃ message,
      (message, q.origin) ∈ held ∧ carries env .offer message = true) :
    Evolves env id held free w (w.register c q) := by
  have hold {x : ℕ} (hx : x < w.nextInst) : (w.register c q).insts x = w.insts x :=
    newInst_insts_lt hx
  have hnew : (w.register c q).insts w.nextInst = q := newInst_insts_self q w
  have hrefl : Evolves env id held free w w := .refl w
  refine { hrefl with insts := Nat.le_succ _, same := ?_, fresh := ?_, peers := ?_,
                      describing := ?_, answered := ?_ }
  · intro x hx
    rw [hold hx]
    exact .refl _
  · intro x hx hx'
    obtain rfl : x = w.nextInst := Nat.le_antisymm (Nat.lt_succ_iff.mp hx') hx
    rw [hnew]
    exact ⟨hb.log, fun _ => hid, horigin⟩
  · intro d k r hr
    rw [register_find?] at hr
    split_ifs at hr with hdk
    · rw [hdk.1]
      cases hf : (w.controls c).peers.find? k with
      | none =>
        rw [hf] at hr
        exact Or.inr ⟨(Option.some.inj hr).symm, hfree⟩
      | some y =>
        rw [hf] at hr
        exact Or.inl hr
    · exact Or.inl hr
  · intro type x hd
    rcases Nat.lt_succ_iff_lt_or_eq.mp hd.1 with hx | rfl
    · rw [Describing, hold hx] at hd
      exact Or.inl ⟨hx, hd.2⟩
    · exact Or.inr ⟨rfl, hfree⟩
  · intro x o hx ho
    rw [hold hx] at ho
    exact Or.inl ho

/-- What every tick of a guard does that receives only the held messages, takes origins
only from them, and starts objects only for the given id and when `free` holds. -/
theorem tick_evolves (hq : env.Quiet) (h : Tick env G w w') (hw : Sound env w)
    (hreceives : ∀ {message o}, G.receives message o → (message, o) ∈ held)
    (hoffers : ∀ {k}, G.offers k → k = id)
    (horigin : ∀ {type k o}, G.origin type k o → k = id ∧
      ∃ message, (message, o) ∈ held ∧ carries env type message = true)
    (hstarts : ∀ {c k ids}, G.starts w c (k :: ids) → free) :
    Evolves env id held free w w' := by
  cases h with
  | call h => exact (Evolves.refl w).calls rfl (.single h) fun _ _ _ _ hn => hn.elim
  | dequeued m queue h =>
    refine .of_same rfl rfl (fun h => h) (fun m' hm' => Or.inl ?_) rfl
    obtain ⟨m'', hmem, hid, rfl⟩ := mem_incoming.mp hm'
    exact mem_incoming.mpr ⟨m'', h ▸ List.mem_cons_of_mem m hmem, hid, rfl⟩
  | received c message origin thread ok =>
    refine .of_same rfl rfl (fun h => h) (fun m hm => ?_) rfl
    rw [incoming_append, if_pos rfl] at hm
    rcases List.mem_append.mp hm with hm | hm
    · exact Or.inl hm
    · rw [List.mem_singleton.mp hm]
      exact Or.inr (hreceives ok)
  | callback x cb hx alive started report h =>
    refine (Evolves.callback x cb).calls rfl h ?_
    rintro y channel type data ⟨rfl, hmem⟩
    exact ⟨hx, callback_described hmem⟩
  | answered c k x sdp origin h from_ =>
    rw [(hw.entries c k x h).live.receiveAnswerSdp_eq]
    refine .setInst ⟨rfl, rfl, rfl⟩ (fun type hp hs => ⟨hp, hs⟩) fun o ho => ?_
    simp only [logged, setRemoteDescription, List.mem_append, List.mem_singleton,
      Effect.answered.injEq] at ho
    rcases ho with ho | rfl
    · exact Or.inl ho
    · exact Or.inr ⟨⟨c, k, h⟩, (horigin from_).2⟩
  | candidate c k x sdpMid sdpMlineIndex candidate h =>
    rw [(hw.entries c k x h).live.addIceCandidate_eq]
    refine .setInst ⟨rfl, rfl, rfl⟩ (fun type hp hs => ⟨hp, hs⟩) fun o ho => Or.inl ?_
    simpa only [logged, List.append_nil] using ho
  | closed c k x code h calls =>
    refine (Evolves.removePeer hw h code).calls rfl calls ?_
    rintro y channel type data ⟨rfl, hmem⟩
    have hlate := removeEffects_late hq (hw.entries c k y h).live code _ hmem
    cases type with
    | offer => exact absurd rfl hlate.1
    | answer => exact absurd rfl hlate.2
  | registered c p ids thread new starts =>
    refine .register new.begun (hstarts starts) ?_ fun hrole => ?_
    · cases new with
      | offer remoteId ok asked =>
        rw [newPeer_ok ok]
        exact hoffers asked
      | answer remoteId sdp origin ok from_ =>
        rw [newPeer_ok ok]
        exact (horigin from_).1
    · cases new with
      | offer remoteId ok asked => cases hrole
      | answer remoteId sdp origin ok from_ => exact (horigin from_).2
  | rejected c remoteId thread failed =>
    have hrefl : Evolves env id held free w w := .refl w
    refine { hrefl with insts := Nat.le_succ _, same := ?_, fresh := ?_, describing := ?_,
                        answered := ?_ }
    · intro x hx
      rw [newInst_insts_lt hx]
      exact .refl _
    · intro x hx hx'
      obtain rfl : x = w.nextInst := Nat.le_antisymm (Nat.lt_succ_iff.mp hx') hx
      rw [newInst_insts_self, newPeer_failed failed]
      exact ⟨rfl, fun h => (by cases h), fun h => (by cases h)⟩
    · intro type x hd
      rcases Nat.lt_succ_iff_lt_or_eq.mp hd.1 with hx | rfl
      · rw [Describing, newInst_insts_lt hx] at hd
        exact Or.inl ⟨hx, hd.2⟩
      · rw [Describing, newInst_insts_self, newPeer_failed failed] at hd
        cases hd.2.1
    · intro x o hx ho
      rw [newInst_insts_lt hx] at ho
      exact Or.inl ho

/-- The releases at the end of a step start nothing. -/
theorem Evolves.releases (w : World) : Evolves env id held free w w.releaseControls.releaseInsts := by
  have hrefl : Evolves env id held free w w := .refl w
  refine { hrefl with same := ?_, fresh := ?_, peers := ?_, describing := ?_, answered := ?_,
                      queue := ?_ }
  · intro x _
    exact ⟨releaseInsts_keeps (·.remoteId) (fun _ => rfl) x,
      releaseInsts_keeps (·.role) (fun _ => rfl) x, releaseInsts_keeps (·.origin) (fun _ => rfl) x⟩
  · exact fun x hx hx' => absurd hx' (Nat.not_lt_of_le hx)
  · exact fun h => Or.inl (releaseControls_find? h)
  · refine fun {type x} hd => Or.inl ?_
    have hp := releaseInsts_keeps (w := w.releaseControls) (·.pending) (fun _ => rfl) x
    have hs := releaseInsts_keeps (w := w.releaseControls) (·.state) (fun _ => rfl) x
    exact ⟨hd.1, hp.symm.trans hd.2.1, hs.symm.trans hd.2.2⟩
  · intro x o _ ho
    have hlog := releaseInsts_keeps (w := w.releaseControls) (·.log) (fun _ => rfl) x
    exact Or.inl (hlog ▸ ho)
  · intro m hm
    obtain ⟨m', hmem, hid, rfl⟩ := mem_incoming.mp hm
    exact Or.inl (mem_incoming.mpr ⟨m', releaseControls_queue hmem, hid, rfl⟩)

end

end PeerApi.Negotiation
