import PeerApi.Negotiation.Evolution

/-! The joint invariant of two negotiating peers. An instance is awaited when it is
about to offer, or its offer or an answer to it is still under way. Answers are matched
to instances by the id of the sender alone, so the invariant says that a side whose
registry has an instance awaits no other one. -/

namespace PeerApi.Negotiation.Net

open Base World PeerControl Relation

@[simp] theorem set_worlds_self (n : Net) (p : Party) (w : World) : (n.set p w).worlds p = w := by
  simp [set]

@[simp] theorem set_worlds_other (n : Net) (p : Party) (w : World) :
    (n.set p w).worlds p.other = n.worlds p.other := by
  simp [set]

section

variable (P : Pair) (held : Party → List (Json × Option ℕ))

/-- The messages for the party, including those that it is handling. -/
def way (n : Net) (p : Party) : List (Json × Option ℕ) := held p ++ n.onTheWay P p

/-- An answer to an offer of instance `x` of `p` may come from `q`: the offer is going
to be made or is on the way, or an answer is going to be made or is on the way. -/
inductive Awaited (n : Net) (p q : Party) (x : ℕ) : Prop where
  | offering (h : Describing (n.worlds p) .offer x)
  | offered (message : Json) (hm : (message, some x) ∈ n.way P held q)
      (hc : carries (P.env q) .offer message = true)
  | answering (y : ℕ) (h : Describing (n.worlds q) .answer y)
      (ho : ((n.worlds q).insts y).origin = some x)
  | answered (message : Json) (y : ℕ) (hm : (message, some y) ∈ n.way P held p)
      (hc : carries (P.env p) .answer message = true)
      (ho : ((n.worlds q).insts y).origin = some x)

/-- The messages a party may get from the server: requests for an offer to the other
one, and descriptions made by its instances. -/
structure Genuine (n : Net) (p q : Party) (m : Json × Option ℕ) : Prop where
  invites : ∀ peerId data, parseCommand (P.env p) m.1 = some ("createoffer", peerId, data) →
    data = .obj [("peers", .arr [.str (P.id q)])]
  describes : ∀ type peerId data,
    parseCommand (P.env p) m.1 = some (descriptionCommand type, peerId, data) →
      peerId = P.id q ∧ ∃ x, m.2 = some x ∧ HasRole (n.worlds q) type x

/-- The joint invariant of both registries and all messages under way. -/
structure Inv (n : Net) : Prop where
  named : ∀ p x, x < (n.worlds p).nextInst → ((n.worlds p).insts x).role.isSome = true →
    ((n.worlds p).insts x).remoteId = P.id p.other
  genuine : ∀ p, ∀ m ∈ n.way P held p, Genuine P n p p.other m
  origins : ∀ p y, HasRole (n.worlds p) .answer y →
    ∃ x, ((n.worlds p).insts y).origin = some x ∧ HasRole (n.worlds p.other) .offer x
  matched : ∀ p c k r, ((n.worlds p).controls c).peers.find? k = some r →
    ∀ x, Awaited P held n p p.other x → r = x
  agreed : ∀ p x, x < (n.worlds p).nextInst → ∀ o, .answered o ∈ ((n.worlds p).insts x).log →
    ∃ y, o = some y ∧ HasRole (n.worlds p.other) .answer y ∧
      ((n.worlds p.other).insts y).origin = some x

/-- The party has no instance registered and awaits none. -/
def Free (n : Net) (p : Party) : Prop :=
  (∀ x, ¬ Awaited P held n p p.other x) ∧
    ∀ d k, ((n.worlds p).controls d).peers.find? k = none

end

@[simp] theorem set_set (n : Net) (p : Party) (w w' : World) : (n.set p w).set p w' = n.set p w' := by
  simp [set]

theorem set_worlds (n : Net) (p : Party) : n.set p (n.worlds p) = n := by
  simp [set]

variable {P : Pair} {held : Party → List (Json × Option ℕ)} {n : Net} {p : Party} {w' : World}

theorem parse_serverMessage (P : Pair) (p : Party) (command id : String) (data : Json) :
    parseCommand (P.env p) (serverMessage command id data) = some (command, id, data) := by
  simp [parseCommand, serverMessage, RtcJson.getStringFromJsonObject, RtcJson.object_value,
    List.lookup_cons, P.getString]

/-! ### Messages under way -/

theorem mem_way_self
    (he : Evolves (P.env p) (P.id p.other) (held p) (Free P held n p) (n.worlds p) w')
    {m : Json × Option ℕ} (hm : m ∈ (n.set p w').way P held p) : m ∈ n.way P held p := by
  simp only [way, onTheWay, inFlight, set_worlds_self, set_worlds_other, List.mem_append] at hm ⊢
  rcases hm with hm | hm | hm
  · exact Or.inl hm
  · exact Or.inr (Or.inl hm)
  · exact (he.queue m hm).elim (fun h => Or.inr (Or.inr h)) Or.inl

/-- A message that a step of the party adds for the other one is a command that the
party has sent. -/
theorem mem_way_other
    (he : Evolves (P.env p) (P.id p.other) (held p) (Free P held n p) (n.worlds p) w')
    {m : Json × Option ℕ} (hm : m ∈ (n.set p w').way P held p.other) :
    m ∈ n.way P held p.other ∨ ∃ sc, P.relay p sc = some m ∧
      ∀ type, sc.command = descriptionCommand type →
        ∃ x, sc.source = some x ∧ Describing (n.worlds p) type x := by
  obtain ⟨new, hnew, hdescr⟩ := he.sends
  simp only [way, onTheWay, inFlight, set_worlds_other, Party.other_other, set_worlds_self,
    List.mem_append, hnew, List.filterMap_append, List.drop_append] at hm ⊢
  rcases hm with hm | (hm | hm) | hm
  · exact Or.inl (Or.inl hm)
  · exact Or.inl (Or.inr (Or.inl hm))
  · obtain ⟨sc, hsc, hrelay⟩ := List.mem_filterMap.mp (List.mem_of_mem_drop hm)
    exact Or.inr ⟨sc, hrelay, hdescr sc hsc⟩
  · exact Or.inl (Or.inr (Or.inr hm))

theorem relay_eq {sc : SentCommand} {m : Json × Option ℕ} (h : P.relay p sc = some m) :
    m = (serverMessage sc.command (P.id p) sc.data, sc.source) := by
  unfold Pair.relay at h
  split_ifs at h
  exact (Option.some.inj h).symm

/-- A relayed command that brings a description has sent it. -/
theorem relay_carries {sc : SentCommand} {m : Json × Option ℕ} (h : P.relay p sc = some m)
    {q : Party} {type : SdpType} (hc : carries (P.env q) type m.1 = true) :
    sc.command = descriptionCommand type := by
  obtain ⟨peerId, data, hparse⟩ := carries_iff.mp hc
  rw [relay_eq h, parse_serverMessage] at hparse
  simpa using congrArg (Option.map Prod.fst) hparse

theorem relay_genuine {sc : SentCommand} {m : Json × Option ℕ} (h : P.relay p sc = some m)
    {q : Party} {n : Net} (hd : ∀ type, sc.command = descriptionCommand type →
      ∃ x, sc.source = some x ∧ HasRole (n.worlds p) type x) : Genuine P n q p m := by
  have hcommand : sc.command ∈ ["offersdp", "answersdp", "ice_candidate"] := by
    unfold Pair.relay at h
    split_ifs at h with hw
    exact hw.2.2
  rw [relay_eq h]
  refine ⟨fun peerId data hparse => ?_, fun type peerId data hparse => ?_⟩
  · rw [parse_serverMessage] at hparse
    simp only [Option.some.injEq, Prod.mk.injEq] at hparse
    rw [hparse.1] at hcommand
    simp at hcommand
  · rw [parse_serverMessage] at hparse
    simp only [Option.some.injEq, Prod.mk.injEq] at hparse
    exact ⟨hparse.2.1.symm, hd type hparse.1⟩

/-! ### Steps of a party -/

section

variable (he : Evolves (P.env p) (P.id p.other) (held p) (Free P held n p) (n.worlds p) w')
include he

theorem hasRole_set {q : Party} {type : SdpType} {x : ℕ} (hx : HasRole (n.worlds q) type x) :
    HasRole ((n.set p w').worlds q) type x ∧
      (((n.set p w').worlds q).insts x).origin = ((n.worlds q).insts x).origin := by
  rcases p.eq_or_other q with rfl | rfl
  · rw [set_worlds_self]
    have same := he.same x hx.1
    exact ⟨⟨hx.1.trans_le he.insts, same.role.trans hx.2⟩, same.origin⟩
  · rw [set_worlds_other]
    exact ⟨hx, rfl⟩

theorem awaited_self {x : ℕ} (h : Awaited P held (n.set p w') p p.other x) :
    Awaited P held n p p.other x ∨ (x = (n.worlds p).nextInst ∧ Free P held n p) := by
  cases h with
  | offering h =>
    rw [set_worlds_self] at h
    exact (he.describing h).imp_left .offering
  | offered message hm hc =>
    rcases mem_way_other he hm with hm | ⟨sc, hrelay, hdescr⟩
    · exact Or.inl (.offered message hm hc)
    · -- the offer has just been made
      obtain ⟨y, hy, hd⟩ := hdescr .offer (relay_carries hrelay hc)
      have hsource := congrArg Prod.snd (relay_eq hrelay)
      obtain rfl : x = y := Option.some.inj (hsource.trans hy)
      exact Or.inl (.offering hd)
  | answering y h ho =>
    rw [set_worlds_other] at h ho
    exact Or.inl (.answering y h ho)
  | answered message y hm hc ho =>
    rw [set_worlds_other] at ho
    exact Or.inl (.answered message y (mem_way_self he hm) hc ho)

theorem awaited_other (h : Inv P held n) (hw' : Sound (P.env p) w') {x : ℕ}
    (hx : Awaited P held (n.set p w') p.other p x) : Awaited P held n p.other p x := by
  -- what was going to be answered before the step still has its origin
  have answering {y : ℕ} (hd : Describing (n.worlds p) .answer y)
      (ho : (w'.insts y).origin = some x) : Awaited P held n p.other p x :=
    .answering y hd ((he.same y hd.1).origin.symm.trans ho)
  cases hx with
  | offering h =>
    rw [set_worlds_other] at h
    exact .offering h
  | offered message hm hc => exact .offered message (mem_way_self he hm) hc
  | answering y hd ho =>
    rw [set_worlds_self] at hd ho
    rcases he.describing hd with hd' | ⟨rfl, -⟩
    · exact answering hd' ho
    · -- a new object answers an offer that was on the way
      obtain ⟨message, hm, hc⟩ := (he.fresh _ le_rfl hd.1).2.2 (hd.hasRole hw').2
      rw [ho] at hm
      exact .offered message (List.mem_append_left _ hm) hc
  | answered message y hm hc ho =>
    rw [set_worlds_self] at ho
    rcases mem_way_other he hm with hm | ⟨sc, hrelay, hdescr⟩
    · obtain ⟨peerId, data, hparse⟩ := carries_iff.mp hc
      obtain ⟨-, z, hz, hrole⟩ := (h.genuine p.other _ hm).describes _ _ _ hparse
      obtain rfl : y = z := Option.some.inj hz
      rw [Party.other_other] at hrole
      exact .answered message y hm hc ((he.same y hrole.1).origin.symm.trans ho)
    · -- the answer has just been made
      obtain ⟨z, hz, hd⟩ := hdescr .answer (relay_carries hrelay hc)
      have hsource := congrArg Prod.snd (relay_eq hrelay)
      obtain rfl : y = z := Option.some.inj (hsource.trans hz)
      exact answering hd ho

/-- On the side that takes the step, a new object is the only one registered and the
only one awaited. -/
theorem matched_self (h : Inv P held n) {c : ℕ} {k : String} {r x : ℕ}
    (hr : (w'.controls c).peers.find? k = some r) (hx : Awaited P held (n.set p w') p p.other x) :
    r = x := by
  rcases he.peers hr with hold | ⟨rfl, hfree⟩
  · rcases awaited_self he hx with hx | ⟨-, hfree⟩
    · exact h.matched p c k r hold x hx
    · rw [hfree.2] at hold
      cases hold
  · rcases awaited_self he hx with hx | ⟨rfl, -⟩
    · exact absurd hx (hfree.1 x)
    · rfl

/-- An answer that is applied was awaited by the registered instance. -/
theorem agreed_self (h : Inv P held n) {x : ℕ} {o : Option ℕ} (hx : x < w'.nextInst)
    (ho : .answered o ∈ (w'.insts x).log) :
    ∃ y, o = some y ∧ HasRole (n.worlds p.other) .answer y ∧
      ((n.worlds p.other).insts y).origin = some x := by
  by_cases hlt : x < (n.worlds p).nextInst
  · rcases he.answered hlt ho with ho | ⟨⟨c, k, hreg⟩, message, hm, hc⟩
    · exact h.agreed p x hlt o ho
    · have hway : (message, o) ∈ n.way P held p := List.mem_append_left _ hm
      obtain ⟨peerId, data, hparse⟩ := carries_iff.mp hc
      obtain ⟨-, y, rfl, hanswer⟩ := (h.genuine p _ hway).describes _ _ _ hparse
      obtain ⟨z, hz, -⟩ := h.origins _ y hanswer
      obtain rfl := h.matched p c k x hreg z (.answered message y hway hc hz)
      exact ⟨y, rfl, hanswer, hz⟩
  · rw [(he.fresh x (Nat.le_of_not_lt hlt) hx).1] at ho
    cases ho

end

theorem Genuine.mono {n n' : Net} {q : Party} {m : Json × Option ℕ}
    (hr : ∀ {type x}, HasRole (n.worlds q) type x → HasRole (n'.worlds q) type x)
    (h : Genuine P n p q m) : Genuine P n' p q m := by
  refine ⟨h.invites, fun type peerId data hparse => ?_⟩
  obtain ⟨hid, x, hx, hrole⟩ := h.describes type peerId data hparse
  exact ⟨hid, x, hx, hr hrole⟩

/-- The invariant survives what a step of a party does. -/
theorem Inv.evolve (h : Inv P held n) (hw : Sound (P.env p) (n.worlds p)) (hw' : Sound (P.env p) w')
    (he : Evolves (P.env p) (P.id p.other) (held p) (Free P held n p) (n.worlds p) w') :
    Inv P held (n.set p w') := by
  constructor
  · intro q x hx hrole
    rcases p.eq_or_other q with rfl | rfl
    · rw [set_worlds_self] at hx hrole ⊢
      by_cases hlt : x < (n.worlds q).nextInst
      · have same := he.same x hlt
        rw [same.role] at hrole
        rw [same.remoteId]
        exact h.named q x hlt hrole
      · exact (he.fresh x (Nat.le_of_not_lt hlt) hx).2.1 hrole
    · rw [set_worlds_other] at hx hrole ⊢
      exact h.named _ x hx hrole
  · intro q m hm
    rcases p.eq_or_other q with rfl | rfl
    · exact (h.genuine _ m (mem_way_self he hm)).mono fun hx => (hasRole_set he hx).1
    · rcases mem_way_other he hm with hm | ⟨sc, hrelay, hdescr⟩
      · exact (h.genuine _ m hm).mono fun hx => (hasRole_set he hx).1
      · rw [Party.other_other]
        refine relay_genuine hrelay fun type hcommand => ?_
        obtain ⟨x, hx, hd⟩ := hdescr type hcommand
        exact ⟨x, hx, (hasRole_set he (hd.hasRole hw)).1⟩
  · intro q y hy
    have old (hy : HasRole (n.worlds q) .answer y) :
        ∃ x, (((n.set p w').worlds q).insts y).origin = some x ∧
          HasRole ((n.set p w').worlds q.other) .offer x := by
      obtain ⟨x, hx, hoffer⟩ := h.origins q y hy
      exact ⟨x, (hasRole_set he hy).2.trans hx, (hasRole_set he hoffer).1⟩
    rcases p.eq_or_other q with rfl | rfl
    · rw [set_worlds_self] at hy
      by_cases hlt : y < (n.worlds q).nextInst
      · exact old ⟨hlt, (he.same y hlt).role.symm.trans hy.2⟩
      · obtain ⟨message, hm, hc⟩ := (he.fresh y (Nat.le_of_not_lt hlt) hy.1).2.2 hy.2
        obtain ⟨peerId, data, hparse⟩ := carries_iff.mp hc
        obtain ⟨-, x, hx, hoffer⟩ :=
          (h.genuine q _ (List.mem_append_left _ hm)).describes _ _ _ hparse
        rw [set_worlds_self]
        exact ⟨x, hx, (hasRole_set he hoffer).1⟩
    · rw [set_worlds_other] at hy
      exact old hy
  · intro q c k r hr x hx
    rcases p.eq_or_other q with rfl | rfl
    · rw [set_worlds_self] at hr
      exact matched_self he h hr hx
    · rw [set_worlds_other] at hr
      refine h.matched _ c k r hr x ?_
      rw [Party.other_other] at hx ⊢
      exact awaited_other he h hw' hx
  · intro q x hx o ho
    have hold : ∃ y, o = some y ∧ HasRole (n.worlds q.other) .answer y ∧
        ((n.worlds q.other).insts y).origin = some x := by
      rcases p.eq_or_other q with rfl | rfl
      · rw [set_worlds_self] at hx ho
        exact agreed_self he h hx ho
      · rw [set_worlds_other] at hx ho
        exact h.agreed _ x hx o ho
    obtain ⟨y, hy, hanswer, horigin⟩ := hold
    exact ⟨y, hy, (hasRole_set he hanswer).1, (hasRole_set he hanswer).2.trans horigin⟩

end PeerApi.Negotiation.Net
