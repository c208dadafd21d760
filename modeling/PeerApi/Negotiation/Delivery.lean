import PeerApi.Negotiation.Agreement
import PeerApi.Session.Inputs
import PeerApi.Session.Leaving

/-! What arrives at the other peer. Whatever the two peers do and however their
negotiations interleave, an object applies the candidates of the other side in the order
in which they were sent, none twice and none changed, and each remote description it
applies is the one description of the instance that sent it. -/

namespace PeerApi.Negotiation

open Base World PeerControl

/-- The data of a command of the server that brings a candidate. -/
def candidateOf (env : Env) (message : Json) : Option Json :=
  match parseCommand env message with
  | none => none
  | some (command, _, data) => if command = "ice_candidate" then some data else none

/-- The data of the candidates among the messages, in their order. -/
def candidatesOf (env : Env) (ms : List (Json × Option ℕ)) : List Json :=
  ms.filterMap fun m => candidateOf env m.1

theorem candidatesOf_append (env : Env) (ms ms' : List (Json × Option ℕ)) :
    candidatesOf env (ms ++ ms') = candidatesOf env ms ++ candidatesOf env ms' :=
  List.filterMap_append

theorem candidatesOf_sublist {env : Env} {ms ms' : List (Json × Option ℕ)} (h : ms.Sublist ms') :
    (candidatesOf env ms).Sublist (candidatesOf env ms') := h.filterMap _

theorem candidateOf_of_read {env : Env} {message : Json} {candidate : String × Int × String}
    (h : readCandidate env message = some candidate) : ∃ data, candidateOf env message = some data ∧
      env.rtc.getStringFromJsonObject data "sdp_mid" = some candidate.1 ∧
      env.rtc.getIntFromJsonObject data "sdp_mline_index" = some candidate.2.1 ∧
      env.rtc.getStringFromJsonObject data "candidate" = some candidate.2.2 := by
  cases hparse : parseCommand env message with
  | none => simp [readCandidate, hparse] at h
  | some c =>
    obtain ⟨command, peerId, data⟩ := c
    simp only [readCandidate, hparse] at h
    simp only [candidateOf, hparse]
    by_cases hc : command = "ice_candidate"
    · rw [if_pos hc] at h ⊢
      refine ⟨data, rfl, ?_⟩
      split at h
      next mid index cand h1 h2 h3 =>
        cases h
        exact ⟨h1, h2, h3⟩
      · cases h
    · rw [if_neg hc] at h
      cases h

namespace Net

variable {P : Pair} {n : Net} {p : Party}

/-- The world of a party is reached by steps of that party. -/
theorem worlds_run (P : Pair) (as : List Action) (p : Party) : ∃ bs : List World.Action,
    (run (Net.step P) init as).worlds p = run (World.step (P.env p)) World.init bs := by
  have hact : ∀ (n : Net) (q : Party) (a : World.Action), (∃ bs,
      n.worlds p = run (World.step (P.env p)) World.init bs) → ∃ bs,
      (n.act P q a).worlds p = run (World.step (P.env p)) World.init bs := by
    rintro n q a ⟨bs, hbs⟩
    rcases q.eq_or_other p with rfl | rfl
    · refine ⟨bs ++ [a], ?_⟩
      rw [Net.act, set_worlds_self, run_append, ← hbs]
      rfl
    · exact ⟨bs, by rw [Net.act, set_worlds_other, hbs]⟩
  refine run_invariant (P := fun n : Net => ∃ bs, n.worlds p = run (World.step (P.env p)) World.init bs)
    (fun n a h => ?_) ⟨[], rfl⟩ as
  cases a with
  | own q a =>
    simp only [Net.step]
    split_ifs
    · exact hact n q a h
    · exact h
  | relay q =>
    simp only [Net.step]
    split
    · exact h
    · exact hact _ q _ h
  | ask q =>
    simp only [Net.step]
    split_ifs
    · exact hact _ q _ h
    · exact h

/-- Everything that the server has had to relay to the party. -/
def sentTo (P : Pair) (n : Net) (p : Party) : List (Json × Option ℕ) :=
  (n.worlds p.other).commands.filterMap (P.relay p.other)

/-- The instance has made the description. -/
def MadeBy (w : World) (origin : Option ℕ) (d : SdpType × String) : Prop :=
  ∃ y, origin = some y ∧ y < w.nextInst ∧ (w.insts y).localDescriptions = [d]

/-! ### What is relayed -/

/-- The world has sent candidates in their shape and descriptions that it has made. -/
def Honest (w : World) : Prop :=
  ∀ sc ∈ w.commands,
    (sc.command = "createchannel" ∨ sc.command = "joinchannel" ∨ sc.command = "leavechannel") ∨
    (sc.command = "ice_candidate" ∧ ∃ candidate, sc.data = candidateData candidate) ∨
    ∃ x type sdp, sc.source = some x ∧ x < w.nextInst ∧ sc.command = descriptionCommand type ∧
      sc.data = .obj [("sdp", .str sdp)] ∧ (w.insts x).localDescriptions = [(type, sdp)]

theorem Honest.candidate (h : Honest (n.worlds p.other)) {data : Json}
    (hd : data ∈ candidatesOf (P.env p) (n.sentTo P p)) :
    ∃ candidate, data = candidateData candidate := by
  obtain ⟨m, hm, hdata⟩ := List.mem_filterMap.mp hd
  obtain ⟨sc, hsc, hrelay⟩ := List.mem_filterMap.mp hm
  simp only [relay_eq hrelay, candidateOf, parse_serverMessage] at hdata
  split_ifs at hdata with hcommand
  obtain rfl := Option.some.inj hdata
  rcases h sc hsc with hc | ⟨-, hc⟩ | ⟨x, type, sdp, -, -, hc, -⟩
  · simp [hcommand] at hc
  · exact hc
  · exact absurd (hc.symm.trans hcommand) (descriptionCommand_ne type)

theorem Honest.description (h : Honest (n.worlds p.other)) {m : Json × Option ℕ}
    (hm : m ∈ n.sentTo P p) {d : SdpType × String} (hd : readDescription (P.env p) m.1 = some d) :
    MadeBy (n.worlds p.other) m.2 d := by
  obtain ⟨sc, hsc, hrelay⟩ := List.mem_filterMap.mp hm
  rw [relay_eq hrelay] at hd ⊢
  simp only [readDescription, parse_serverMessage] at hd
  rcases h sc hsc with hc | ⟨hc, -⟩ | ⟨x, type, sdp, hsource, hx, hc, hdata, hlocal⟩
  · rcases hc with hc | hc | hc <;> simp [hc] at hd
  · simp [hc] at hd
  · refine ⟨x, hsource, hx, ?_⟩
    have hread : (P.env p).rtc.getStringFromJsonObject sc.data "sdp" = some sdp := by
      simp [hdata, RtcJson.getStringFromJsonObject, RtcJson.object_value, P.getString]
    rw [hlocal]
    cases type with
    | offer => simpa [hc, descriptionCommand, hread] using hd
    | answer => simpa [hc, descriptionCommand, hread] using hd

/-- Reading a candidate in its shape gives the candidate. -/
theorem read_candidateData {env : Env} (hstr : ∀ s, env.rtc.getStringFromJson (.str s) = some s)
    (hint : ∀ i, env.rtc.getIntFromJson (.int i) = some i) {message : Json}
    {candidate candidate' : String × Int × String} (h : readCandidate env message = some candidate)
    (hdata : candidateOf env message = some (candidateData candidate')) :
    candidateOf env message = some (candidateData candidate) := by
  obtain ⟨data, hof, h1, h2, h3⟩ := candidateOf_of_read h
  obtain rfl : data = candidateData candidate' := Option.some.inj (hof.symm.trans hdata)
  simp only [candidateData, RtcJson.getStringFromJsonObject, RtcJson.object_value,
    List.lookup_cons, beq_self_eq_true, Option.bind_some, hstr] at h1
  simp [candidateData, RtcJson.getStringFromJsonObject, RtcJson.getIntFromJsonObject,
    RtcJson.object_value, List.lookup_cons, hstr, hint] at h2 h3
  rw [hof]
  obtain ⟨mid, index, cand⟩ := candidate
  obtain ⟨mid', index', cand'⟩ := candidate'
  simp_all

/-! ### Candidates in order -/

/-- What the objects of a peer have applied, then what its controls have not handled yet
and then `rest` are taken in order from what was sent. -/
structure InOrder (env : Env) (sent rest : List Json) (w : World) : Prop where
  queue : ∀ c, (candidatesOf env (w.commandsFor c) ++ rest).Sublist sent
  objects : ∀ x, x < w.nextInst → ((w.insts x).candidates.map candidateData ++
    (candidatesOf env (w.commandsFor (w.insts x).control) ++ rest)).Sublist sent

variable {env : Env} {sent rest : List Json} {w : World}

/-- The releases at the end of a step drop messages only. -/
theorem InOrder.releases (h : InOrder env sent rest w) :
    InOrder env sent rest w.releaseControls.releaseInsts := by
  have hqueue : ∀ c, (w.releaseControls.releaseInsts.commandsFor c).Sublist (w.commandsFor c) :=
    fun c => (List.filter_sublist.filter _).map _
  refine ⟨fun c => ?_, fun x hx => ?_⟩
  · exact ((candidatesOf_sublist (hqueue c)).append_right rest).trans (h.queue c)
  · have h1 := releaseInsts_keeps (w := w.releaseControls) (·.candidates) (fun _ => rfl) x
    have h2 := releaseInsts_keeps (w := w.releaseControls) (·.control) (fun _ => rfl) x
    rw [h1, h2]
    refine (List.Sublist.append_left ?_ _).trans (h.objects x hx)
    exact (candidatesOf_sublist (hqueue _)).append_right rest

/-- The message that a step takes from the queue is the first of its control. -/
theorem commandsFor_taken {m : Message} (w : World) {a : World.Action}
    (hm : w.handling a = some m) (hid : m.messageId = .commandReceived) :
    w.commandsFor m.handler = (m.data.dataJson, m.origin) :: (w.taken a).commandsFor m.handler := by
  cases a with
  | process =>
    cases hq : w.queue with
    | nil => simp [handling, hq] at hm
    | cons m' queue =>
      simp only [handling, hq, List.head?_cons, Option.some.injEq] at hm
      subst hm
      simp [commandsFor, hq, taken, hid]
  | _ => cases hm

theorem commandsFor_taken_sublist (w : World) (a : World.Action) (c : ℕ) :
    ((w.taken a).commandsFor c).Sublist (w.commandsFor c) := by
  cases a with
  | process => exact ((List.tail_sublist _).filter _).map _
  | _ => exact List.Sublist.refl _

theorem InOrder.step (h : InOrder env sent rest w) (hw : Reached env w) {a : World.Action}
    (ha : ∀ message origin, a ≠ .command message origin)
    (hstr : ∀ s, env.rtc.getStringFromJson (.str s) = some s)
    (hint : ∀ i, env.rtc.getIntFromJson (.int i) = some i)
    (hsent : ∀ data ∈ sent, ∃ candidate, data = candidateData candidate) :
    InOrder env sent rest (w.step env a) := by
  unfold World.step
  split_ifs
  · exact h
  have hb := act_bringsCandidates hw ha
  have hinsts : (w.taken a).insts = w.insts ∧ (w.taken a).nextInst = w.nextInst := by
    cases a <;> exact ⟨rfl, rfl⟩
  have hqueue : ∀ c, ((w.act env a).commandsFor c).Sublist (w.commandsFor c) :=
    fun c => hb.queue c ▸ commandsFor_taken_sublist w a c
  refine InOrder.releases ⟨fun c => ?_, fun x hx => ?_⟩
  · exact ((candidatesOf_sublist (hqueue c)).append_right rest).trans (h.queue c)
  by_cases hlt : x < w.nextInst
  · have hlt' : x < (w.taken a).nextInst := hinsts.2 ▸ hlt
    have hold := h.objects x hlt
    rw [hb.control x hlt', hinsts.1]
    rcases hb.old x hlt' with hc | ⟨m, candidate, hm, hhandler, hid, hread, hc⟩
    · rw [hc, hinsts.1]
      refine (List.Sublist.append_left ?_ _).trans hold
      exact (candidatesOf_sublist (hqueue _)).append_right rest
    · -- the candidate was the first of what the control had not handled
      rw [hinsts.1] at hhandler hc
      rw [hc, hb.queue, ← hhandler]
      rw [← hhandler, commandsFor_taken w hm hid] at hold
      obtain ⟨data, hdata, -⟩ := candidateOf_of_read hread
      have hcons : candidatesOf env ((m.data.dataJson, m.origin) ::
          (w.taken a).commandsFor m.handler) =
            data :: candidatesOf env ((w.taken a).commandsFor m.handler) := by
        simp [candidatesOf, hdata]
      rw [hcons] at hold
      obtain ⟨candidate', rfl⟩ := hsent data (hold.subset (by simp))
      have hsame := Option.some.inj (hdata.symm.trans (read_candidateData hstr hint hread hdata))
      rw [hsame] at hold
      simpa using hold
  · have hge : (w.taken a).nextInst ≤ x := hinsts.2 ▸ Nat.le_of_not_lt hlt
    rw [hb.new x hge hx, List.map_nil, List.nil_append]
    exact ((candidatesOf_sublist (hqueue _)).append_right rest).trans (h.queue _)

/-- A command arrives: it was the first of the rest. -/
theorem InOrder.command {message : Json} {origin : Option ℕ}
    (h : InOrder env sent (candidatesOf env [(message, origin)] ++ rest) w) :
    InOrder env sent rest (w.step env (.command message origin)) := by
  have hless : (rest).Sublist (candidatesOf env [(message, origin)] ++ rest) :=
    List.sublist_append_right _ _
  unfold World.step
  split_ifs
  · exact ⟨fun c => (hless.append_left _).trans (h.queue c),
      fun x hx => ((hless.append_left _).append_left _).trans (h.objects x hx)⟩
  have hqueue : ∀ c, (candidatesOf env ((w.signalOnCommandReceived message origin).commandsFor c) ++
      rest).Sublist (candidatesOf env (w.commandsFor c) ++
        (candidatesOf env [(message, origin)] ++ rest)) := by
    intro c
    obtain ⟨l, hl, hsub⟩ := signalOnCommandReceived_commandsFor message origin w c
    rw [hl, candidatesOf_append, List.append_assoc]
    exact ((candidatesOf_sublist hsub).append_right rest).append_left _
  obtain ⟨hsame, -⟩ := signalOnCommandReceived_commands message origin w
  refine InOrder.releases ⟨fun c => (hqueue c).trans (h.queue c), fun x hx => ?_⟩
  have hx' : x < w.nextInst := hsame.nextInst ▸ hx
  rw [show w.act env (.command message origin) = w.signalOnCommandReceived message origin from rfl,
    hsame.insts]
  exact ((hqueue _).append_left _).trans (h.objects x hx')

/-- More is sent. -/
theorem InOrder.more (h : InOrder env sent rest w) {new rest' : List Json}
    (hrest : rest'.Sublist (rest ++ new)) : InOrder env (sent ++ new) rest' w := by
  refine ⟨fun c => ?_, fun x hx => ?_⟩
  · refine (hrest.append_left _).trans ?_
    rw [← List.append_assoc]
    exact (h.queue c).append_right new
  · refine ((hrest.append_left _).append_left _).trans ?_
    rw [← List.append_assoc, ← List.append_assoc, List.append_assoc _ _ rest]
    exact (h.objects x hx).append_right new

/-! ### Descriptions -/

/-- The commands that a peer has not handled were relayed or bring no description, and
what its objects have applied was made by the other side. -/
structure Traced (env : Env) (sent : List (Json × Option ℕ)) (other w : World) : Prop where
  incoming : ∀ m ∈ w.incoming, m ∈ sent ∨ readDescription env m.1 = none
  backed : Everywhere (Backed (MadeBy other)) w

variable {messages : List (Json × Option ℕ)} {other other' : World}

theorem Traced.releases (h : Traced env messages other w) :
    Traced env messages other w.releaseControls.releaseInsts := by
  refine ⟨fun m hm => ?_, fun x hx => ?_⟩
  · obtain ⟨m', hmem, hid, rfl⟩ := mem_incoming.mp hm
    exact h.incoming _ (mem_incoming.mpr ⟨m', releaseControls_queue hmem, hid, rfl⟩)
  · have hx' := h.backed x hx
    unfold Backed at hx' ⊢
    have h1 := releaseInsts_keeps (w := w.releaseControls) (·.sources) (fun _ => rfl) x
    have h2 := releaseInsts_keeps (w := w.releaseControls) (·.remoteDescriptions) (fun _ => rfl) x
    rw [h1, h2]
    exact hx'

theorem Traced.step (h : Traced env messages other w) (hw : Reached env w) {a : World.Action}
    (ha : ∀ message origin, a ≠ .command message origin)
    (hmade : ∀ m ∈ messages, ∀ d, readDescription env m.1 = some d → MadeBy other m.2 d) :
    Traced env messages other (w.step env a) := by
  unfold World.step
  split_ifs
  · exact h
  have hhandling : ∀ m, w.handling a = some m → m.messageId = .commandReceived →
      (m.data.dataJson, m.origin) ∈ w.incoming := by
    intro m hm hid
    cases a with
    | process => exact mem_incoming.mpr ⟨m, List.mem_of_mem_head? hm, hid, rfl⟩
    | _ => cases hm
  refine Traced.releases ⟨fun m hm => ?_, act_backed hw ha (fun m hm hid d hd => ?_) h.backed⟩
  · refine h.incoming m ?_
    obtain ⟨m', hmem, hid, rfl⟩ := mem_incoming.mp hm
    have hfor : (m'.data.dataJson, m'.origin) ∈ (w.act env a).commandsFor m'.handler :=
      List.mem_map.mpr ⟨m', List.mem_filter.mpr ⟨hmem, by simp [hid]⟩, rfl⟩
    rw [(act_bringsCandidates hw ha).queue] at hfor
    obtain ⟨m'', hmem', heq⟩ :=
      List.mem_map.mp ((commandsFor_taken_sublist w a _).subset hfor)
    obtain ⟨hmem', hid'⟩ := List.mem_filter.mp hmem'
    simp only [decide_eq_true_eq] at hid'
    exact mem_incoming.mpr ⟨m'', hmem', hid'.1, heq⟩
  · rcases h.incoming _ (hhandling m hm hid) with hmem | hnone
    · exact hmade _ hmem d hd
    · rw [hnone] at hd
      cases hd

theorem Traced.command (h : Traced env messages other w) {message : Json} {origin : Option ℕ}
    (hm : (message, origin) ∈ messages ∨ readDescription env message = none) :
    Traced env messages other (w.step env (.command message origin)) := by
  unfold World.step
  split_ifs
  · exact h
  obtain ⟨hsame, -⟩ := signalOnCommandReceived_commands message origin w
  refine Traced.releases ⟨fun m hmem => ?_, fun x hx => ?_⟩
  · obtain ⟨m', hq, hid, rfl⟩ := mem_incoming.mp hmem
    obtain ⟨l, hl, hsub⟩ := signalOnCommandReceived_commandsFor message origin w m'.handler
    have hfor : (m'.data.dataJson, m'.origin) ∈
        (w.signalOnCommandReceived message origin).commandsFor m'.handler :=
      List.mem_map.mpr ⟨m', List.mem_filter.mpr ⟨hq, by simp [hid]⟩, rfl⟩
    rw [hl] at hfor
    rcases List.mem_append.mp hfor with hfor | hfor
    · obtain ⟨m'', hmem', heq⟩ := List.mem_map.mp hfor
      obtain ⟨hmem', hid'⟩ := List.mem_filter.mp hmem'
      simp only [decide_eq_true_eq] at hid'
      exact h.incoming _ (mem_incoming.mpr ⟨m'', hmem', hid'.1, heq⟩)
    · rw [List.mem_singleton.mp (hsub.subset hfor)]
      exact hm
  · rw [show w.act env (.command message origin) = w.signalOnCommandReceived message origin from rfl,
      hsame.insts]
    exact h.backed x (hsame.nextInst ▸ hx)

/-- The other side goes on: it keeps its descriptions and sends more. -/
theorem Traced.more (h : Traced env messages other w) {new : List (Json × Option ℕ)}
    (hmade : ∀ o d, MadeBy other o d → MadeBy other' o d) :
    Traced env (messages ++ new) other' w :=
  ⟨fun m hm => (h.incoming m hm).imp_left (List.mem_append_left new),
    fun x hx => (h.backed x hx).imp hmade⟩

/-! ### Runs -/

/-- The rtc helpers read an integer as itself. -/
def ReadsInts (P : Pair) : Prop := ∀ p i, (P.env p).rtc.getIntFromJson (.int i) = some i

/-- What both peers have applied of what the other one has sent. -/
structure Delivered (P : Pair) (n : Net) : Prop where
  run : ∃ as, n = Base.run (Net.step P) init as
  candidates : ReadsInts P → ∀ p, InOrder (P.env p) (candidatesOf (P.env p) (n.sentTo P p))
    (candidatesOf (P.env p) (n.inFlight P p)) (n.worlds p)
  traced : ∀ p, Traced (P.env p) (n.sentTo P p) (n.worlds p.other) (n.worlds p)

theorem Delivered.reached (h : Delivered P n) (p : Party) : Reached (P.env p) (n.worlds p) := by
  obtain ⟨as, rfl⟩ := h.run
  obtain ⟨bs, hbs⟩ := worlds_run P as p
  rw [hbs]
  exact reached_run _ bs

theorem Delivered.honest (h : Delivered P n) (p : Party) : Honest (n.worlds p) := by
  obtain ⟨as, rfl⟩ := h.run
  obtain ⟨bs, hbs⟩ := worlds_run P as p
  rw [hbs]
  exact command_run _ bs

theorem Delivered.describes (h : Delivered P n) (p : Party) :
    Everywhere Describes (n.worlds p) := by
  obtain ⟨as, rfl⟩ := h.run
  obtain ⟨bs, hbs⟩ := worlds_run P as p
  rw [hbs]
  exact (describes_lasting _).run bs

/-- A description is made once. -/
theorem Delivered.madeBy (h : Delivered P n) (p : Party) (a : World.Action) {o : Option ℕ}
    {d : SdpType × String} (hd : MadeBy (n.worlds p) o d) :
    MadeBy ((n.worlds p).step (P.env p) a) o d := by
  obtain ⟨y, rfl, hy, hlocal⟩ := hd
  obtain ⟨hle, hkeep⟩ := step_keepsDescriptions (h.reached p) a
  have hy' := hy.trans_le hle
  have honce : (((n.worlds p).step (P.env p) a).insts y).localDescriptions.length ≤ 1 := by
    obtain ⟨as, rfl⟩ := h.run
    obtain ⟨bs, hbs⟩ := worlds_run P as p
    rw [hbs] at hy' ⊢
    have hrun := run_append (World.step (P.env p)) World.init bs [a]
    rw [run_cons, run_nil] at hrun
    rw [← hrun] at hy' ⊢
    exact ((describes_lasting _).run _ y hy').once
  refine ⟨y, rfl, hy', ?_⟩
  have hkept := hkeep y hy
  rw [hlocal] at hkept
  exact (hkept.eq_of_length_le (by simpa using honce)).symm

/-- A party takes a step, after the server may have delivered something to it. -/
theorem Delivered.act (h : Delivered P n) (n' : Net) (hworlds : n'.worlds = n.worlds)
    (hrelayed : n'.relayed p.other = n.relayed p.other) {a : World.Action}
    (hrun : ∃ as, n'.act P p a = Base.run (Net.step P) init as)
    (hself : ReadsInts P → InOrder (P.env p) (candidatesOf (P.env p) (n.sentTo P p))
      (candidatesOf (P.env p) (n'.inFlight P p)) ((n.worlds p).step (P.env p) a))
    (htraced : Traced (P.env p) (n.sentTo P p) (n.worlds p.other)
      ((n.worlds p).step (P.env p) a)) : Delivered P (n'.act P p a) := by
  obtain ⟨new, hnew, -⟩ := step_sends (h.reached p) a
  have hw : (n'.act P p a).worlds p = (n.worlds p).step (P.env p) a := by
    rw [Net.act, set_worlds_self, hworlds]
  have hw' : (n'.act P p a).worlds p.other = n.worlds p.other := by
    rw [Net.act, set_worlds_other, hworlds]
  have hr : (n'.act P p a).relayed p.other = n.relayed p.other := hrelayed
  have hsent : (n'.act P p a).sentTo P p.other =
      n.sentTo P p.other ++ new.filterMap (P.relay p) := by
    simp only [sentTo, Party.other_other, hw, hnew, List.filterMap_append]
  have hflight : ((n'.act P p a).inFlight P p.other).Sublist
      (n.inFlight P p.other ++ new.filterMap (P.relay p)) := by
    simp only [inFlight, Party.other_other, hw, hr, hnew, List.filterMap_append, List.drop_append]
    exact (List.drop_sublist _ _).append_left _
  have hsent' : (n'.act P p a).sentTo P p = n.sentTo P p := by
    simp only [sentTo, hw']
  have hflight' : (n'.act P p a).inFlight P p = n'.inFlight P p := by
    simp only [inFlight, hw', hworlds]
    rfl
  refine ⟨hrun, fun hint q => ?_, fun q => ?_⟩
  · rcases p.eq_or_other q with rfl | rfl
    · rw [hsent', hflight', hw]
      exact hself hint
    · rw [hsent, candidatesOf_append, hw']
      refine (h.candidates hint p.other).more ?_
      rw [← candidatesOf_append]
      exact candidatesOf_sublist hflight
  · rcases p.eq_or_other q with rfl | rfl
    · rw [hsent', hw, hw']
      exact htraced
    · have hold := h.traced p.other
      rw [Party.other_other] at hold
      rw [hsent, hw', Party.other_other, hw]
      exact hold.more fun o d hd => h.madeBy p a hd

theorem delivered_init (P : Pair) : Delivered P init := by
  refine ⟨⟨[], rfl⟩, fun _ p => ⟨fun c => List.nil_sublist _, fun x hx => ?_⟩,
    fun p => ⟨fun m hm => ?_, fun x hx => ?_⟩⟩
  · cases hx
  · cases hm
  · cases hx

/-- A message that the server does not relay brings neither a candidate nor a description. -/
theorem readDescription_plain {message : Json} (h : Plain P p message) :
    readDescription (P.env p) message = none := by
  unfold readDescription
  split
  · rfl
  next command peerId data hparse =>
    have hne (type : SdpType) : command ≠ descriptionCommand type := by
      rintro rfl
      have := carries_iff.mpr ⟨peerId, data, hparse⟩
      rw [h.2 type] at this
      cases this
    have hoffer : command ≠ "offersdp" := hne .offer
    have hanswer : command ≠ "answersdp" := hne .answer
    rw [if_neg hoffer, if_neg hanswer]

theorem candidateOf_own {message : Json} {origin : Option ℕ}
    (h : P.Own p (.command message origin)) : candidateOf (P.env p) message = none := by
  unfold candidateOf
  split
  · rfl
  next command peerId data hparse =>
    refine if_neg ?_
    rintro rfl
    exact absurd (h.2 _ hparse) (by simp)

theorem Delivered.step (h : Delivered P n) (a : Action) : Delivered P (n.step P a) := by
  obtain ⟨as, hn⟩ := h.run
  have hrun : n.step P a = Base.run (Net.step P) init (as ++ [a]) := by
    rw [run_append, ← hn]
    rfl
  have hshape (p : Party) : ∀ data ∈ candidatesOf (P.env p) (n.sentTo P p),
      ∃ candidate, data = candidateData candidate := fun _ => (h.honest p.other).candidate
  have hmade (p : Party) : ∀ m ∈ n.sentTo P p, ∀ d, readDescription (P.env p) m.1 = some d →
      MadeBy (n.worlds p.other) m.2 d := fun _ hm _ => (h.honest p.other).description hm
  cases a with
  | own p a =>
    simp only [Net.step] at hrun ⊢
    split_ifs at hrun ⊢ with hown
    · by_cases ha : ∀ message origin, a ≠ .command message origin
      · exact h.act n rfl rfl ⟨_, hrun⟩
          (fun hint => (h.candidates hint p).step (h.reached p) ha (P.getString p) (hint p) (hshape p))
          ((h.traced p).step (h.reached p) ha (hmade p))
      · push Not at ha
        obtain ⟨message, origin, rfl⟩ := ha
        have hnone : candidatesOf (P.env p) [(message, origin)] = [] := by
          simp [candidatesOf, candidateOf_own hown]
        refine h.act n rfl rfl ⟨_, hrun⟩ (fun hint => .command ?_)
          ((h.traced p).command (Or.inr (readDescription_plain (plain_own hown))))
        rw [hnone]
        exact h.candidates hint p
    · exact h
  | relay p =>
    simp only [Net.step] at hrun ⊢
    split at hrun
    next => exact h
    next message origin rest hflight =>
      have hrest : inFlight P { n with relayed := Function.update n.relayed p (n.relayed p + 1) } p =
          rest := by
        have htail := congrArg List.tail hflight
        simpa [inFlight, List.tail_drop] using htail
      refine h.act { n with relayed := Function.update n.relayed p (n.relayed p + 1) } rfl
        (Function.update_of_ne (Party.other_ne p) _ _) ⟨_, hrun⟩ (fun hint => .command ?_)
        ((h.traced p).command (Or.inl ?_))
      · rw [hrest, ← candidatesOf_append, List.singleton_append, ← hflight]
        exact h.candidates hint p
      · refine List.mem_of_mem_drop (i := n.relayed p) ?_
        change (message, origin) ∈ n.inFlight P p
        rw [hflight]
        exact List.mem_cons_self
  | ask p =>
    simp only [Net.step] at hrun ⊢
    split_ifs at hrun ⊢
    · refine h.act { n with asked := Function.update n.asked p (n.asked p + 1) } rfl rfl ⟨_, hrun⟩
        (fun hint => .command ?_) ((h.traced p).command (Or.inr (readDescription_plain (plain_createOffer P p))))
      have hnone : candidatesOf (P.env p) [(createOfferMessage [P.id p.other], none)] = [] := by
        simp [candidatesOf, candidateOf, createOfferMessage, parse_serverMessage]
      rw [hnone]
      exact h.candidates hint p
    · exact h

theorem delivered_run (P : Pair) (as : List Action) :
    Delivered P (Base.run (Net.step P) init as) :=
  run_invariant (fun _ a h => h.step a) (delivered_init P) as

/-- The data of the candidates that a peer has written to the channel of the given id. -/
def sentCandidates (id : String) (w : World) : List Json :=
  (w.commands.filter fun sc =>
    sc.written && sc.channel = id && sc.command = "ice_candidate").map (·.data)

theorem candidatesOf_sentTo (P : Pair) (n : Net) (p : Party) :
    candidatesOf (P.env p) (n.sentTo P p) = sentCandidates (P.id p) (n.worlds p.other) := by
  unfold candidatesOf sentTo sentCandidates
  rw [List.filterMap_filterMap]
  have hone (sc : SentCommand) :
      ((P.relay p.other sc).bind fun m => candidateOf (P.env p) m.1) =
        if (sc.written && sc.channel = P.id p && sc.command = "ice_candidate") = true
        then some sc.data else none := by
    unfold Pair.relay
    rw [Party.other_other]
    by_cases hc : sc.command = "ice_candidate"
    · by_cases hw : sc.written = true ∧ sc.channel = P.id p
      · simp [hc, hw.1, hw.2, candidateOf, parse_serverMessage]
      · rw [if_neg (by tauto), if_neg (by simpa [hc] using hw)]
        rfl
    · have hnone (data : Json) : candidateOf (P.env p) (serverMessage sc.command (P.id p.other)
          data) = none := by simp [candidateOf, parse_serverMessage, hc]
      rw [if_neg (c := _ = true) (by simp [hc])]
      split_ifs
      · exact hnone _
      · rfl
  simp only [hone]
  induction (n.worlds p.other).commands with
  | nil => rfl
  | cons sc commands ih =>
    rw [List.filterMap_cons, ih, List.filter_cons]
    split_ifs <;> rfl

/-- The candidates that an object has applied are candidates that the other peer has
written to its channel, unchanged, in the same order and none twice. -/
theorem candidates_in_order (P : Pair) (hint : ReadsInts P) (as : List Action) (p : Party) (x : ℕ)
    (hx : x < ((Base.run (Net.step P) init as).worlds p).nextInst) :
    ((((Base.run (Net.step P) init as).worlds p).insts x).candidates.map candidateData).Sublist
      (sentCandidates (P.id p) ((Base.run (Net.step P) init as).worlds p.other)) := by
  have h := ((delivered_run P as).candidates hint p).objects x hx
  rw [candidatesOf_sentTo] at h
  exact (List.sublist_append_left _ _).trans h

theorem idlePair_readsInts : ReadsInts idlePair := by
  intro p i
  cases p <;> rfl

/-- A connects to B, and B sends two candidates after the negotiation. -/
def connectedWithCandidates : List Action :=
  connectedOnce ++ [.own .b (.callback 0 (.onIceCandidate "data" 0 (some "first"))),
    .own .b (.callback 0 (.onIceCandidate "data" 0 (some "second"))), .relay .a, .relay .a,
    .own .a .process, .own .a .process]

theorem candidates_in_order_connected :
    (((Base.run (Net.step idlePair) init connectedWithCandidates).worlds .a).insts 0).candidates =
      [("data", 0, "first"), ("data", 0, "second")] ∧
    ((((Base.run (Net.step idlePair) init connectedWithCandidates).worlds .a).insts
      0).candidates.map candidateData).Sublist (sentCandidates (idlePair.id .a)
        ((Base.run (Net.step idlePair) init connectedWithCandidates).worlds .b)) :=
  ⟨by decide +kernel, candidates_in_order idlePair idlePair_readsInts connectedWithCandidates .a 0
    (by decide +kernel)⟩

/-- Each remote description of an object is the one description of the instance of the
other peer that it comes from. -/
theorem descriptions_genuine (P : Pair) (as : List Action) (p : Party) (x : ℕ)
    (hx : x < ((Base.run (Net.step P) init as).worlds p).nextInst) :
    Backed (MadeBy ((Base.run (Net.step P) init as).worlds p.other))
      (((Base.run (Net.step P) init as).worlds p).insts x) :=
  ((delivered_run P as).traced p).backed x hx

theorem descriptions_genuine_connected :
    (((Base.run (Net.step idlePair) init connectedOnce).worlds .b).insts 0).remoteDescriptions =
      [(.answer, "answer")] ∧
    Backed (MadeBy ((Base.run (Net.step idlePair) init connectedOnce).worlds .a))
      (((Base.run (Net.step idlePair) init connectedOnce).worlds .b).insts 0) :=
  ⟨by decide +kernel, descriptions_genuine idlePair connectedOnce .b 0 (by decide +kernel)⟩

/-! ### Undisturbed negotiations -/

theorem mem_of_forall₂ {α β : Type*} {R : α → β → Prop} {as : List α} {bs : List β}
    (h : List.Forall₂ R as bs) {b : β} (hb : b ∈ bs) : ∃ a ∈ as, R a b := by
  induction h with
  | nil => cases hb
  | cons hab _ ih =>
    rcases List.mem_cons.mp hb with rfl | hb
    · exact ⟨_, List.mem_cons_self, hab⟩
    · obtain ⟨a, ha, hr⟩ := ih hb
      exact ⟨a, List.mem_cons_of_mem _ ha, hr⟩

theorem mem_answered {q : PeerControl} {origin : Option ℕ}
    (h : origin ∈ q.log.filterMap Effect.answered?) : .answered origin ∈ q.log := by
  obtain ⟨e, he, heq⟩ := List.mem_filterMap.mp h
  cases e with
  | answered o =>
    obtain rfl : o = origin := Option.some.inj heq
    exact he
  | _ => cases heq

/-- An instance that answers has applied no answer. -/
theorem Joint.sources (h : Joint P n) {y : ℕ} (hy : HasRole (n.worlds p) .answer y) :
    ((n.worlds p).insts y).sources = [((n.worlds p).insts y).origin] := by
  have hnone : ((n.worlds p).insts y).log.filterMap Effect.answered? = [] := by
    refine List.eq_nil_iff_forall_not_mem.mpr fun o ho => ?_
    obtain ⟨z, -, hz, horigin⟩ := h.inv.agreed p y hy.1 o (mem_answered ho)
    obtain ⟨x, hx, hoffer⟩ := h.inv.origins _ z hz
    obtain rfl : y = x := Option.some.inj (horigin.symm.trans hx)
    rw [Party.other_other] at hoffer
    have := hy.2.symm.trans hoffer.2
    cases this
  rw [PeerControl.sources, if_pos hy.2, hnone, List.append_nil]

/-- In undisturbed runs both ends of a negotiation have the same pair of descriptions:
a remote description of an offering object is the one description of an instance that
answers it, and the only remote description of that instance is the one of the object. -/
theorem descriptions_agree (P : Pair) (hq : ∀ p, (P.env p).Quiet) (as : List Action)
    (ha : Along (Net.step P) (Undisturbed P) init as) (p : Party) (x : ℕ) :
    let n := Base.run (Net.step P) init as
    HasRole (n.worlds p) .offer x → ∀ d ∈ ((n.worlds p).insts x).remoteDescriptions,
      ∃ y offer, HasRole (n.worlds p.other) .answer y ∧
        ((n.worlds p.other).insts y).localDescriptions = [d] ∧
        ((n.worlds p).insts x).localDescriptions = [offer] ∧
        ((n.worlds p.other).insts y).remoteDescriptions = [offer] := by
  intro n hx d hd
  have hj : Joint P n := joint_run P hq ha
  have hdelivered : Delivered P n := delivered_run P as
  have hsources : ((n.worlds p).insts x).sources =
      ((n.worlds p).insts x).log.filterMap Effect.answered? := by
    rw [PeerControl.sources, hx.2, if_neg (by simp), List.nil_append]
  obtain ⟨o, ho, y, rfl, hy, hlocal⟩ := mem_of_forall₂ ((hdelivered.traced p).backed x hx.1) hd
  rw [hsources] at ho
  obtain ⟨z, hz, hanswer, horigin⟩ := hj.inv.agreed p x hx.1 _ (mem_answered ho)
  obtain rfl : y = z := Option.some.inj hz
  -- the instance that answered has applied the offer of the object and nothing else
  have hback := (hdelivered.traced p.other).backed y hy
  unfold Backed at hback
  rw [hj.sources hanswer, horigin, Party.other_other] at hback
  cases hremote : ((n.worlds p.other).insts y).remoteDescriptions with
  | nil =>
    rw [hremote] at hback
    cases hback
  | cons offer rest =>
    rw [hremote] at hback
    obtain ⟨⟨x', hx', -, hoffer⟩, hrest⟩ := List.forall₂_cons.mp hback
    obtain rfl : x = x' := Option.some.inj hx'
    rw [List.forall₂_nil_left_iff.mp hrest] at hremote
    exact ⟨y, offer, hanswer, hlocal, hoffer, hremote⟩

theorem descriptions_agree_connected :
    let n := Base.run (Net.step idlePair) init connectedOnce
    ∃ y offer, HasRole (n.worlds .a) .answer y ∧
      ((n.worlds .a).insts y).localDescriptions = [(.answer, "answer")] ∧
      ((n.worlds .b).insts 0).localDescriptions = [offer] ∧
      ((n.worlds .a).insts y).remoteDescriptions = [offer] :=
  descriptions_agree idlePair idlePair_quiet connectedOnce (by decide +kernel) .b 0
    ⟨by decide +kernel, by decide +kernel⟩ (.answer, "answer") (by decide +kernel)

end Net

end PeerApi.Negotiation
