import PeerApi.Negotiation.Invariant

/-! Offers and answers of undisturbed negotiations are not crossed: a party handles the
messages it gets from the server, one step after the other, and each step keeps the
joint invariant. Repeated `Connect` calls break it, because a second negotiation starts
while the first one is under way. -/

namespace PeerApi.Negotiation.Net

open Base World PeerControl Relation

variable {P : Pair} {held : Party → List (Json × Option ℕ)} {n : Net} {p : Party} {w' : World}

/-! ### Steps of a party -/

/-- The guard of a step of the party that handles the held messages: it starts at
most one object, and only while it is free. -/
def negotiationGuard (P : Pair) (held : Party → List (Json × Option ℕ)) (n : Net) (p : Party) :
    Guard :=
  { Guard.free with
    receives := fun message origin => (message, origin) ∈ held p
    offers := fun id => id = P.id p.other
    origin := fun type id origin => id = P.id p.other ∧
      ∃ message, (message, origin) ∈ held p ∧ carries (P.env p) type message = true
    starts := fun w _ ids => ids.tail = [] ∧ (ids ≠ [] → Free P held (n.set p w) p)
    starts_register := by
      rintro w c id ids q - ⟨htail, -⟩
      obtain rfl : ids = [] := htail
      exact ⟨rfl, fun h => absurd rfl h⟩ }

theorem Inv.tick {w : World} (hq : (P.env p).Quiet) (hw : Sound (P.env p) w)
    (h : Inv P held (n.set p w)) (ht : Tick (P.env p) (negotiationGuard P held n p) w w') :
    Inv P held (n.set p w') := by
  have he : Evolves (P.env p) (P.id p.other) (held p) (Free P held (n.set p w) p) w w' :=
    tick_evolves hq ht hw (fun h => h) (fun h => h) (fun h => h)
      fun h => h.2 (List.cons_ne_nil _ _)
  rw [← set_set n p w w']
  refine h.evolve ?_ (ht.sound hw) ?_
  · rwa [set_worlds_self]
  · rwa [set_worlds_self]

/-- A step of a party that its guard admits. -/
theorem Inv.act (hq : (P.env p).Quiet) (hr : Reached (P.env p) (n.worlds p)) (h : Inv P held n)
    {a : World.Action}
    (ha : Admitted (P.env p) (negotiationGuard P held n p) (n.worlds p) a) :
    Inv P held (n.act P p a) := by
  unfold Net.act
  rcases step_ticks hr ha with heq | ⟨-, ht, heq⟩
  · rwa [heq, set_worlds]
  · obtain ⟨hw, hi⟩ := calls_invariant
      (P := fun w => Sound (P.env p) w ∧ Inv P held (n.set p w))
      (fun ht hw => ⟨ht.sound hw.1, hw.2.tick hq hw.1 ht⟩) ht
      ⟨hr.toSound, by rwa [set_worlds]⟩
    rw [heq, ← set_set n p ((n.worlds p).act (P.env p) a)]
    refine hi.evolve ?_ hw.releaseControls.releaseInsts.toSound ?_
    · rwa [set_worlds_self]
    · rw [set_worlds_self]
      exact Evolves.releases _

/-! ### Messages that are handled -/

/-- The party is handling the given messages. -/
def hold (p : Party) (l : List (Json × Option ℕ)) (q : Party) : List (Json × Option ℕ) :=
  if q = p then l else []

/-- A message without a description that asks for an offer to the other party only. -/
structure Plain (P : Pair) (p : Party) (message : Json) : Prop where
  invites : ∀ peerId data, parseCommand (P.env p) message = some ("createoffer", peerId, data) →
    data = .obj [("peers", .arr [.str (P.id p.other)])]
  silent : ∀ type, carries (P.env p) type message = false

theorem Plain.genuine {m : Json × Option ℕ} (h : Plain P p m.1) : Genuine P n p p.other m := by
  refine ⟨h.invites, fun type peerId data hparse => ?_⟩
  have := (carries_iff.mpr ⟨peerId, data, hparse⟩).symm.trans (h.silent type)
  cases this

/-- Fewer messages, and plain ones, keep the invariant. -/
theorem Inv.widen {n' : Net} {held' : Party → List (Json × Option ℕ)} (h : Inv P held n)
    (hworlds : n'.worlds = n.worlds)
    (hsub : ∀ q m, m ∈ n'.way P held' q → m ∈ n.way P held q ∨ Plain P q m.1) :
    Inv P held' n' := by
  have hcarried {q : Party} {m : Json × Option ℕ} {type : SdpType} (hm : m ∈ n'.way P held' q)
      (hc : carries (P.env q) type m.1 = true) : m ∈ n.way P held q := by
    refine (hsub q m hm).resolve_right fun hplain => ?_
    rw [hplain.silent] at hc
    cases hc
  constructor
  · rw [hworlds]
    exact h.named
  · intro q m hm
    rcases hsub q m hm with hm | hplain
    · exact (h.genuine q m hm).mono fun hx => by rwa [hworlds]
    · exact hplain.genuine
  · rw [hworlds]
    exact h.origins
  · intro q c k r hr x hx
    rw [hworlds] at hr
    refine h.matched q c k r hr x ?_
    cases hx with
    | offering hd =>
      rw [hworlds] at hd
      exact .offering hd
    | offered message hm hc => exact .offered message (hcarried hm hc) hc
    | answering y hd ho =>
      rw [hworlds] at hd ho
      exact .answering y hd ho
    | answered message y hm hc ho =>
      rw [hworlds] at ho
      exact .answered message y (hcarried hm hc) hc ho
  · rw [hworlds]
    exact h.agreed

theorem mem_way_hold {l : List (Json × Option ℕ)} {q : Party} {m : Json × Option ℕ}
    (hm : m ∈ n.way P (hold p l) q) : m ∈ n.onTheWay P q ∨ (q = p ∧ m ∈ l) := by
  simp only [way, hold, List.mem_append] at hm
  split_ifs at hm with hqp
  · exact hm.elim (fun h => Or.inr ⟨hqp, h⟩) Or.inl
  · exact Or.inl (hm.resolve_left (by simp))

/-- The server has delivered something. -/
structure Delivers (P : Pair) (n n' : Net) : Prop where
  worlds : n'.worlds = n.worlds
  onTheWay : ∀ {q m}, m ∈ n'.onTheWay P q → m ∈ n.onTheWay P q

theorem Delivers.refl (P : Pair) (n : Net) : Delivers P n n := ⟨rfl, fun h => h⟩

/-- A step that handles some messages, each of them on the way to the party or plain. -/
theorem Inv.handle {n' : Net} (hq : (P.env p).Quiet) (hr : Reached (P.env p) (n.worlds p))
    (h : Inv P (fun _ => []) n) (hd : Delivers P n n') (l : List (Json × Option ℕ))
    (hl : ∀ m ∈ l, m ∈ n.onTheWay P p ∨ Plain P p m.1) {a : World.Action}
    (ha : Admitted (P.env p) (negotiationGuard P (hold p l) n' p) (n'.worlds p) a) :
    Inv P (fun _ => []) (n'.act P p a) := by
  have hheld : Inv P (hold p l) n' := by
    refine h.widen hd.worlds fun q m hm => ?_
    rcases mem_way_hold hm with hm | ⟨rfl, hml⟩
    · exact Or.inl (hd.onTheWay hm)
    · exact hl m hml
  refine (hheld.act hq (by rwa [hd.worlds]) ha).widen rfl fun q m hm => Or.inl ?_
  exact List.mem_append_right _ hm

/-! ### What a message starts -/

theorem offered_single (P : Pair) (p : Party) (k : ℕ) (id : String) :
    (offered (P.env p) k [some (.str id)]).1 = [] ∨
      (offered (P.env p) k [some (.str id)]).1 = [id] := by
  simp only [offered, Option.bind_some, P.getString]
  split_ifs
  · exact Or.inr rfl
  · exact Or.inl rfl

/-- A genuine message starts at most one object, for the other party. -/
theorem Genuine.startedIds {m : Message} {q : Party} (w : World)
    (h : m.messageId = .commandReceived → Genuine P n p q (m.data.dataJson, m.origin)) :
    startedIds (P.env p) w m = [] ∨ startedIds (P.env p) w m = [P.id q] := by
  unfold World.startedIds
  split
  next command peerId data hm hparse =>
    unfold planned
    by_cases h1 : command = "createoffer"
    · subst h1
      rw [if_pos rfl, (h hm).invites peerId data hparse]
      simp only [RtcJson.object_value, List.lookup_cons, beq_self_eq_true, RtcJson.items_arr,
        List.map_cons, List.map_nil]
      exact offered_single P p _ _
    rw [if_neg h1]
    by_cases h2 : command = "offersdp"
    · subst h2
      rw [if_pos rfl, ((h hm).describes .offer peerId data hparse).1]
      split
      · exact Or.inl rfl
      · split_ifs
        · exact Or.inr rfl
        · exact Or.inl rfl
    · rw [if_neg h2]
      exact Or.inl rfl
  · exact Or.inl rfl

theorem Settled.free (hs : n.Settled P p) (hw : Sound (P.env p) (n.worlds p))
    (hclosed : ∀ x, x < (n.worlds p).nextInst → ((n.worlds p).insts x).state = .closed)
    {queue : List Message} (hqueue : queue ⊆ (n.worlds p).queue) :
    Free P (hold p (n.worlds p).incoming) (n.set p { n.worlds p with queue := queue }) p := by
  have hsub {q : Party} {m : Json × Option ℕ}
      (hm : m ∈ (n.set p { n.worlds p with queue := queue }).way P
        (hold p (n.worlds p).incoming) q) : m ∈ n.onTheWay P q := by
    have hincoming : ∀ m ∈ World.incoming { n.worlds p with queue := queue },
        m ∈ (n.worlds p).incoming := by
      intro m hm
      obtain ⟨m', hmem, hid, rfl⟩ := mem_incoming.mp hm
      exact mem_incoming.mpr ⟨m', hqueue hmem, hid, rfl⟩
    have hrelayed : (n.set p { n.worlds p with queue := queue }).relayed = n.relayed := rfl
    rcases p.eq_or_other q with rfl | rfl
    · simp only [way, hold, onTheWay, inFlight, set_worlds_self, set_worlds_other, if_true,
        List.mem_append, hrelayed] at hm ⊢
      rcases hm with hm | hm | hm
      · exact Or.inr hm
      · exact Or.inl hm
      · exact Or.inr (hincoming m hm)
    · simp only [way, hold, onTheWay, inFlight, set_worlds_self, set_worlds_other,
        Party.other_other, Party.other_ne, if_false, List.nil_append, hrelayed] at hm ⊢
      exact hm
  obtain ⟨hoffers, hanswering, hanswers⟩ := hs
  refine ⟨fun x hx => ?_, fun d k => ?_⟩
  · cases hx with
    | offering hd =>
      rw [set_worlds_self] at hd
      have := (hclosed x hd.1).symm.trans hd.2.2
      cases this
    | offered message hm hc =>
      rw [hoffers _ (hsub hm)] at hc
      cases hc
    | answering y hd ho =>
      rw [set_worlds_other] at hd
      exact hanswering y hd.1 hd
    | answered message y hm hc ho =>
      rw [hanswers _ (hsub hm)] at hc
      cases hc
  · rw [set_worlds_self]
    by_contra hne
    obtain ⟨x, hx⟩ := Option.ne_none_iff_exists'.mp hne
    have hstate := (hw.entries d k x hx).live.state
    rw [hclosed x (hw.bound d k x hx)] at hstate
    simp at hstate

/-! ### Runs -/

/-- What an undisturbed run maintains. -/
structure Joint (P : Pair) (n : Net) : Prop where
  reached : ∀ p, Reached (P.env p) (n.worlds p)
  kept : ∀ p, Kept (P.env p) (n.worlds p)
  inv : Inv P (fun _ => []) n

theorem joint_init (P : Pair) : Joint P init := by
  have hway (p : Party) : init.way P (fun _ => []) p = [] := rfl
  have hfind (c : ℕ) (k : String) : (World.init.controls c).peers.find? k = none :=
    OrderedMap.find?_empty k
  refine ⟨fun p => reached_init _, fun p => kept_init _, ?_, ?_, ?_, ?_, ?_⟩
  · intro p x hx
    cases hx
  · intro p m hm
    rw [hway] at hm
    cases hm
  · intro p y hy
    cases hy.1
  · intro p c k r hr
    have := (hfind c k).symm.trans hr
    cases this
  · intro p x hx
    cases hx

/-- The head of the queue is handled as the guard asks. -/
theorem Joint.process (h : Joint P n) (ha : n.Undisturbed P (.own p .process)) :
    Admitted (P.env p) (negotiationGuard P (hold p (n.worlds p).incoming) n p) (n.worlds p)
      .process := by
  intro m queue hqueue
  have hmem : m ∈ (n.worlds p).queue := by
    rw [hqueue]
    exact List.mem_cons_self
  have hincoming (hm : m.messageId = .commandReceived) :
      (m.data.dataJson, m.origin) ∈ (n.worlds p).incoming := mem_incoming.mpr ⟨m, hmem, hm, rfl⟩
  have hgenuine (hm : m.messageId = .commandReceived) :
      Genuine P n p p.other (m.data.dataJson, m.origin) :=
    h.inv.genuine p _ (List.mem_append_right _ (List.mem_append_right _ (hincoming hm)))
  have hstarted := Genuine.startedIds (n.worlds p) hgenuine
  have hheld {m' : Json × Option ℕ} (hm' : m' ∈ (n.worlds p).incoming) :
      m' ∈ hold p (n.worlds p).incoming p := by simpa [hold] using hm'
  refine ⟨⟨?_, fun hne => ?_⟩, fun _ _ => trivial, fun hm peerId data hparse id hid => ?_,
    fun hm type peerId data hparse => ?_⟩
  · rcases hstarted with h1 | h1 <;> exact congrArg List.tail h1
  · -- a start of an orderly step finds no entry, so everything else is closed
    have hids := hstarted.resolve_left hne
    obtain ⟨⟨⟨-, hfresh⟩, -⟩, hsettled⟩ :=
      And.imp_left (fun ho => ho m (by rw [hqueue]; rfl)) ha
    obtain ⟨hobs, hfind⟩ := hfresh (P.id p.other) (by rw [hids]; exact List.mem_cons_self)
    refine (hsettled m (by rw [hqueue]; rfl) hne).free (h.reached p).toSound (fun x hx => ?_) ?_
    · exact (h.kept p).all_closed ((h.reached p).queued m hmem) hobs hfind (h.inv.named p) hx
    · rw [hqueue]
      exact List.subset_cons_self m queue
  · have hid' : id ∈ startedIds (P.env p) (n.worlds p) m := hid
    rcases hstarted with h1 | h1
    · rw [h1] at hid'
      cases hid'
    · rw [h1] at hid'
      exact List.mem_singleton.mp hid'
  · exact ⟨((hgenuine hm).describes type peerId data hparse).1, m.data.dataJson,
      hheld (hincoming hm), carries_iff.mpr ⟨peerId, data, hparse⟩⟩

theorem Joint.act (h : Joint P n) (hq : ∀ p, (P.env p).Quiet) {n' : Net} (hd : Delivers P n n')
    {a : World.Action} (ha : Orderly (P.env p) (n'.worlds p) a)
    (hinv : Inv P (fun _ => []) (n'.act P p a)) : Joint P (n'.act P p a) := by
  rw [hd.worlds] at ha
  refine ⟨fun q => ?_, fun q => ?_, hinv⟩
  · rcases p.eq_or_other q with rfl | rfl
    · rw [Net.act, set_worlds_self, hd.worlds]
      exact (h.reached q).step a
    · rw [Net.act, set_worlds_other, hd.worlds]
      exact h.reached p.other
  · rcases p.eq_or_other q with rfl | rfl
    · rw [Net.act, set_worlds_self, hd.worlds]
      exact (h.kept q).step (hq q) (h.reached q) ha
    · rw [Net.act, set_worlds_other, hd.worlds]
      exact h.kept p.other

/-- A message of the server comes in: one that was on the way or a plain one. -/
theorem Joint.command (h : Joint P n) (hq : ∀ p, (P.env p).Quiet) {n' : Net}
    (hd : Delivers P n n') (message : Json) (origin : Option ℕ)
    (hm : (message, origin) ∈ n.onTheWay P p ∨ Plain P p message) :
    Joint P (n'.act P p (.command message origin)) := by
  refine h.act hq hd trivial (h.inv.handle (hq p) (h.reached p) hd [(message, origin)] ?_ ?_)
  · intro m hmem
    rw [List.mem_singleton.mp hmem]
    exact hm
  · change (message, origin) ∈ hold p [(message, origin)] p
    simp [hold]

theorem plain_createOffer (P : Pair) (p : Party) :
    Plain P p (createOfferMessage [P.id p.other]) := by
  have hparse := parse_serverMessage P p "createoffer" "" (.obj [("peers", .arr [.str (P.id p.other)])])
  refine ⟨fun peerId data h => ?_, fun type => ?_⟩
  · have := hparse.symm.trans h
    simp only [Option.some.injEq, Prod.mk.injEq] at this
    exact this.2.2.symm
  · rw [← Bool.not_eq_true, carries_iff]
    rintro ⟨peerId, data, h⟩
    have := hparse.symm.trans h
    cases type <;> simp [descriptionCommand] at this

theorem plain_own {message : Json} {origin : Option ℕ} (h : P.Own p (.command message origin)) :
    Plain P p message := by
  refine ⟨fun peerId data hparse => ?_, fun type => ?_⟩
  · exact absurd (h.2 _ hparse) (by simp)
  · rw [← Bool.not_eq_true, carries_iff]
    rintro ⟨peerId, data, hparse⟩
    refine h.2 _ hparse ?_
    cases type <;> simp [descriptionCommand]

theorem relay_delivers (n : Net) (p : Party) : Delivers P n
    { n with relayed := Function.update n.relayed p (n.relayed p + 1) } := by
  refine ⟨rfl, fun {q m} hm => ?_⟩
  simp only [onTheWay, inFlight, List.mem_append] at hm ⊢
  refine hm.imp_left fun hm => ?_
  by_cases hqp : q = p
  · subst hqp
    rw [Function.update_self, ← List.drop_drop] at hm
    exact List.mem_of_mem_drop hm
  · rwa [Function.update_of_ne hqp] at hm

theorem Joint.step (h : Joint P n) (hq : ∀ p, (P.env p).Quiet) {a : Action}
    (ha : n.Undisturbed P a) : Joint P (n.step P a) := by
  cases a with
  | own p a =>
    simp only [Net.step]
    split_ifs with hown
    · have quiet (hadm : Admitted (P.env p) (negotiationGuard P (hold p []) n p) (n.worlds p) a) :
          Joint P (n.act P p a) :=
        h.act hq (.refl P n) ha.1 (h.inv.handle (hq p) (h.reached p) (.refl P n) [] (by simp) hadm)
      cases a with
      | process =>
        refine h.act hq (.refl P n) ha.1 (h.inv.handle (hq p) (h.reached p) (.refl P n) _
          (fun m hm => Or.inl ?_) (h.process ha))
        exact List.mem_append_right _ hm
      | command message origin =>
        exact h.command hq (.refl P n) message origin (Or.inr (plain_own hown))
      | callback x cb => exact quiet ⟨trivial, fun _ _ => trivial⟩
      | api a => exact quiet trivial
      | net a => exact quiet trivial
    · exact h
  | relay p =>
    simp only [Net.step]
    split
    · exact h
    next message origin rest hflight =>
      refine h.command hq (relay_delivers n p) message origin (Or.inl (List.mem_append_left _ ?_))
      rw [hflight]
      exact List.mem_cons_self
  | ask p =>
    simp only [Net.step]
    split_ifs
    · have hd : Delivers P n { n with asked := Function.update n.asked p (n.asked p + 1) } :=
        ⟨rfl, fun hm => hm⟩
      exact h.command hq hd _ none (Or.inr (plain_createOffer P p))
    · exact h

theorem joint_run (P : Pair) (hq : ∀ p, (P.env p).Quiet) {as : List Action}
    (ha : Along (Net.step P) (Undisturbed P) init as) : Joint P (run (Net.step P) init as) :=
  ha.invariant (fun _ _ h ha => h.step hq ha) (joint_init P)

/-- An instance with a role is stored in `peers_` or has been closed. -/
theorem Joint.hasEntry (h : Joint P n) {type : SdpType} {y : ℕ}
    (hy : HasRole (n.worlds p) type y) : HasEntry (n.worlds p) (P.id p.other) y := by
  have hk := h.kept p
  have open_ (hs : ((n.worlds p).insts y).state ≠ .closed) :
      HasEntry (n.worlds p) (P.id p.other) y := by
    refine Or.inl ⟨_, hk.attended y hy.1 hs, ?_⟩
    rw [← h.inv.named p y hy.1 (by rw [hy.2]; rfl)]
    exact hk.owned y hy.1 hs trivial
  cases hk.phases y hy.1 with
  | rejected hr log =>
    have := hr.role.symm.trans hy.2
    cases this
  | live hl log => exact open_ (by rcases hl.state with hs | hs <;> simp [hs])
  | closed hc =>
    obtain ⟨pre, mid, post, code, hlog, -⟩ := hc.log
    exact Or.inr ⟨hc.state, by simp [hlog]⟩

/-- In undisturbed runs answers are applied by the instances whose offers they answer,
and come from the instances that the other side has registered for them. -/
theorem answers_agree (P : Pair) (hq : ∀ p, (P.env p).Quiet) (as : List Action)
    (ha : Along (Net.step P) (Undisturbed P) init as) : Agreement P (run (Net.step P) init as) := by
  have h := joint_run P hq ha
  intro p x hx origin horigin
  obtain ⟨y, rfl, hanswer, hy⟩ := h.inv.agreed p x hx origin horigin
  obtain ⟨x', hx', hoffer⟩ := h.inv.origins p.other y hanswer
  obtain rfl : x = x' := Option.some.inj (hy.symm.trans hx')
  have hentry := h.hasEntry hanswer
  rw [Party.other_other] at hoffer hentry
  exact ⟨y, rfl, hanswer.1, hanswer.2, hy, hoffer.2, hentry⟩

/-! ### Two idle peers -/

def idlePair : Pair where
  env
    | .a => Env.alone
    | .b => Env.idle "b" (by decide)
  getString p s := by cases p <;> rfl

theorem idlePair_quiet (p : Party) : (idlePair.env p).Quiet := by
  cases p <;> exact fun _ _ h => by cases h

/-- The party opens its peer and gets its signal connection. -/
def opening (p : Party) : List Action :=
  [.own p (.api .open), .own p (.net (.connectInternal true)), .own p (.net (.onOpen 0))]

/-- The answers that an instance has applied. -/
def answersOf (p : PeerControl) : List (Option ℕ) :=
  p.log.filterMap fun
    | .answered origin => some origin
    | _ => none

theorem mem_answersOf {p : PeerControl} {origin : Option ℕ} :
    origin ∈ answersOf p ↔ .answered origin ∈ p.log := by
  simp only [answersOf, List.mem_filterMap]
  constructor
  · rintro ⟨e, he, heq⟩
    cases e <;> simp at heq
    subst heq
    exact he
  · exact fun h => ⟨_, h, rfl⟩

/-- A connects to B once, and the negotiation is completed. -/
def connectedOnce : List Action :=
  opening .a ++ opening .b ++
    [.own .a (.api (.connect "b")), .ask .b, .own .b .process,
      .own .b (.callback 0 (.onSuccess (some "offer"))), .relay .a, .own .a .process,
      .own .a (.callback 0 (.onSuccess (some "answer"))), .relay .b, .own .b .process]

theorem answers_agree_connectedOnce :
    answersOf (((run (Net.step idlePair) init connectedOnce).worlds .b).insts 0) = [some 0] ∧
    Agreement idlePair (run (Net.step idlePair) init connectedOnce) :=
  ⟨by decide +kernel, answers_agree idlePair idlePair_quiet connectedOnce (by decide +kernel)⟩

/-- A connects to B twice before the first negotiation has begun. -/
def connectedTwice : List Action :=
  opening .a ++ opening .b ++
    [.own .a (.api (.connect "b")), .own .a (.api (.connect "b")), .ask .b, .ask .b,
      .own .b .process, .own .b .process,
      .own .b (.callback 0 (.onSuccess (some "offer 0"))),
      .own .b (.callback 1 (.onSuccess (some "offer 1"))), .relay .a, .relay .a,
      .own .a .process, .own .a .process,
      .own .a (.callback 0 (.onSuccess (some "answer 0"))),
      .own .a (.callback 1 (.onSuccess (some "answer 1"))), .relay .b, .relay .b,
      .own .b .process, .own .b .process]

/-- The first instance of B also applies the answer to the offer of the second one. -/
theorem connectedTwice_crossed :
    ¬ Agreement idlePair (run (Net.step idlePair) init connectedTwice) := by
  intro h
  have hanswer : .answered (some 1) ∈
      (((run (Net.step idlePair) init connectedTwice).worlds .b).insts 0).log :=
    mem_answersOf.mp (by decide +kernel)
  obtain ⟨y, hy, -, -, horigin, -⟩ := h .b 0 (by decide +kernel) _ hanswer
  obtain rfl : 1 = y := Option.some.inj hy
  have hother : (((run (Net.step idlePair) init connectedTwice).worlds .a).insts 1).origin =
      some 1 := by decide +kernel
  have := hother.symm.trans horigin
  cases this

end PeerApi.Negotiation.Net
