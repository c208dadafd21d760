import PeerApi.Websocket.Stream

/-! How much a peer can make the processor hold. The size of a data message is checked when
a frame of it begins, with the sum of what is there and what the frame announces. The sum is
one of machine words, so the check bounds what is held unless a frame announces so much
that the sum wraps around. -/

namespace PeerApi.Websocket

open Hybi13

namespace Hybi13

variable {maxSize : ℕ} {p q : Hybi13} {buf rest : List UInt8}

/-- What the message under way has, together with what its frame is still to bring. -/
def pendingSize (p : Hybi13) (m : Message) : ℕ :=
  if p.state = .application ∧ p.currentMsg = .data then m.payload.length + p.bytesNeeded
  else m.payload.length

structure Bounded (maxSize : ℕ) (p : Hybi13) : Prop where
  maxSize_eq : p.maxMessageSize = maxSize
  pending : ∀ m, p.dataMsg.msgPtr = some m → p.pendingSize m % 2 ^ 64 ≤ maxSize

/-- A step that reads no payload leaves the message under way alone. -/
theorem Bounded.same (h : Bounded maxSize p) (hp : p.state ≠ .application)
    (hq : q.state ≠ .application) (hmax : q.maxMessageSize = p.maxMessageSize)
    (hdata : q.dataMsg = p.dataMsg) : Bounded maxSize q := by
  refine ⟨hmax.trans h.maxSize_eq, fun m hm => ?_⟩
  have hsize := h.pending m (hdata ▸ hm)
  unfold pendingSize at hsize ⊢
  rw [if_neg fun hs => hp hs.1] at hsize
  rwa [if_neg fun hs => hq hs.1]

theorem Bounded.endBasicHeader (h : Bounded maxSize p) (hp : p.state = .headerBasic)
    (hr : p.endBasicHeader = .ok q) : Bounded maxSize q := by
  unfold Hybi13.endBasicHeader at hr
  cases hv : validateIncomingBasicHeader p.basicHeader p.server p.dataMsg.msgPtr.isNone with
  | some ec =>
    rw [hv] at hr
    cases hr
  | none =>
    rw [hv] at hr
    cases hr
    exact h.same (by rw [hp]; decide) (fun hs => (by cases hs)) rfl rfl

theorem exists_copyBasicHeaderBytes (p : Hybi13) (buf : List UInt8) :
    ∃ hd n, (p.copyBasicHeaderBytes buf).1 = { p with basicHeader := hd, bytesNeeded := n } := by
  unfold Hybi13.copyBasicHeaderBytes
  by_cases hn : p.bytesNeeded = 0
  · rw [if_pos hn]
    exact ⟨_, _, rfl⟩
  rw [if_neg hn]
  rcases buf with _ | ⟨b, _ | ⟨c, buf⟩⟩
  · exact ⟨_, _, rfl⟩
  · dsimp only
    split_ifs <;> exact ⟨_, _, rfl⟩
  · dsimp only
    split_ifs <;> exact ⟨_, _, rfl⟩

theorem Bounded.consumeBasic (h : Bounded maxSize p) (hp : p.state = .headerBasic)
    (hr : p.consumeBasic buf = .ok (q, rest)) : Bounded maxSize q := by
  obtain ⟨hd, n, hcopy⟩ := p.exists_copyBasicHeaderBytes buf
  unfold Hybi13.consumeBasic at hr
  rcases hc : p.copyBasicHeaderBytes buf with ⟨r, rest'⟩
  rw [hc] at hr hcopy
  dsimp only at hr hcopy
  subst hcopy
  have hb : Bounded maxSize { p with basicHeader := hd, bytesNeeded := n } :=
    h.same (by rw [hp]; decide) (by rw [hp]; decide) rfl rfl
  split_ifs at hr
  · cases hr
    exact hb
  · cases he : Hybi13.endBasicHeader { p with basicHeader := hd, bytesNeeded := n } with
    | error ec =>
      rw [he] at hr
      cases hr
    | ok r =>
      rw [he] at hr
      cases hr
      exact hb.endBasicHeader hp he

/-- The check on the size of a message. -/
theorem Bounded.startFrame {m : ℕ} (h : Bounded maxSize p) (hp : p.state ≠ .application)
    (hr : Hybi13.startFrame { p with state := .application, bytesNeeded := m } = .ok q) :
    Bounded maxSize q := by
  unfold Hybi13.startFrame at hr
  dsimp only at hr
  by_cases hc : (getOpcode p.basicHeader).isControl
  · rw [if_pos hc] at hr
    cases hr
    refine ⟨h.maxSize_eq, fun m' hm' => ?_⟩
    have hsize := h.pending m' hm'
    unfold pendingSize at hsize ⊢
    rw [if_neg fun hs => hp hs.1] at hsize
    rwa [if_neg fun hs => (by cases hs.2)]
  · rw [if_neg hc] at hr
    cases hm : p.dataMsg.msgPtr with
    | none =>
      rw [hm] at hr
      dsimp only at hr
      split_ifs at hr with hbig
      cases hr
      refine ⟨h.maxSize_eq, fun m' hm' => ?_⟩
      cases hm'
      rw [← h.maxSize_eq]
      unfold pendingSize
      rw [if_pos ⟨rfl, rfl⟩, List.length_nil, Nat.zero_add]
      exact (Nat.mod_le _ _).trans (Nat.le_of_not_lt hbig)
    | some m₀ =>
      rw [hm] at hr
      dsimp only at hr
      split_ifs at hr with hbig
      cases hr
      refine ⟨h.maxSize_eq, fun m' hm' => ?_⟩
      cases hm'
      rw [← h.maxSize_eq]
      unfold pendingSize
      rw [if_pos ⟨rfl, rfl⟩]
      exact Nat.le_of_not_lt hbig

theorem Bounded.consumeExtended (h : Bounded maxSize p) (hp : p.state = .headerExtended)
    (hr : p.consumeExtended buf = .ok (q, rest)) : Bounded maxSize q := by
  unfold Hybi13.consumeExtended at hr
  rw [copyExtendedHeaderBytes_eq] at hr
  dsimp only at hr
  have hb : Bounded maxSize (p.extend (buf.take p.bytesNeeded)) :=
    h.same (by rw [hp]; decide) (by unfold extend; rw [hp]; decide) rfl rfl
  have hstate : (p.extend (buf.take p.bytesNeeded)).state ≠ .application := by
    unfold extend
    rw [hp]
    decide
  generalize p.extend (buf.take p.bytesNeeded) = r at *
  split_ifs at hr
  · cases hr
    exact hb
  · unfold Hybi13.endExtendedHeader at hr
    cases hv : validateIncomingExtendedHeader r.basicHeader r.extendedHeader with
    | some ec =>
      rw [hv] at hr
      cases hr
    | none =>
      rw [hv] at hr
      cases hs : Hybi13.startFrame { r with
          state := .application
          bytesNeeded := getPayloadSize r.basicHeader r.extendedHeader } with
      | error ec =>
        rw [hs] at hr
        cases hr
      | ok r' =>
        rw [hs] at hr
        cases hr
        exact hb.startFrame hstate hs

theorem length_unmask (h : p.Sound) (hp : p.state = .application) (buf : List UInt8) :
    (p.unmask buf).1.length = buf.length := by
  obtain ⟨key, n, hkey⟩ := h.masked hp
  unfold unmask
  split_ifs
  · rw [(hkey.byteMaskCirc buf).1, Base.length_mask]
  · rfl

theorem stored_data (h : p.currentMsg = .data) (m : MsgMetadata) (n : ℕ) :
    p.stored m n = { p with dataMsg := m, bytesNeeded := p.bytesNeeded - n } := by
  unfold stored setCurrent
  rw [h]

theorem stored_control (h : p.currentMsg = .control) (m : MsgMetadata) (n : ℕ) :
    p.stored m n = { p with controlMsg := m, bytesNeeded := p.bytesNeeded - n } := by
  unfold stored setCurrent
  rw [h]

/-- A part of the payload moves from what is to come to what is there. -/
theorem Bounded.processPayloadBytes (h : Bounded maxSize p) (hs : p.Sound)
    (hp : p.state = .application) (hlen : buf.length ≤ p.bytesNeeded)
    (hr : p.processPayloadBytes buf = .ok q) : Bounded maxSize q := by
  obtain ⟨m, hm⟩ := Option.isSome_iff_exists.mp (hs.message (Or.inl hp))
  have hcur : p.current = ⟨some m, p.current.preparedKey, p.current.validator⟩ := by rw [← hm]
  have hunmask := length_unmask hs hp buf
  rw [processPayloadBytes_eq hcur] at hr
  generalize p.unmask buf = r at *
  by_cases hbad : m.opcode = .text ∧ (p.current.validator.decode r.1).2 = false
  · rw [if_pos hbad] at hr
    cases hr
  rw [if_neg hbad] at hr
  cases hr
  cases hslot : p.currentMsg with
  | data =>
    rw [stored_data hslot]
    refine ⟨h.maxSize_eq, fun m' hm' => ?_⟩
    cases hm'
    have hsize := h.pending m (by rw [← hm, current, hslot])
    unfold pendingSize at hsize ⊢
    rw [if_pos ⟨hp, hslot⟩] at hsize
    rw [if_pos ⟨hp, hslot⟩]
    dsimp only
    rw [List.length_append, hunmask]
    have hsum : m.payload.length + buf.length + (p.bytesNeeded - buf.length) =
        m.payload.length + p.bytesNeeded := by omega
    rwa [hsum]
  | control =>
    have hdata : ¬ (p.state = .application ∧ p.currentMsg = .data) := by
      rw [hslot]
      exact fun hs => (by cases hs.2)
    rw [stored_control hslot]
    refine ⟨h.maxSize_eq, fun m' hm' => ?_⟩
    have hsize := h.pending m' hm'
    unfold pendingSize at hsize ⊢
    rw [if_neg hdata] at hsize
    rwa [if_neg hdata]

/-- A frame ends when nothing is to come any more. -/
theorem Bounded.leave (h : Bounded maxSize p) (hneeded : p.bytesNeeded = 0)
    (hq : q.state ≠ .application) (hmax : q.maxMessageSize = p.maxMessageSize)
    (hdata : q.dataMsg.msgPtr = none ∨ q.dataMsg = p.dataMsg) : Bounded maxSize q := by
  refine ⟨hmax.trans h.maxSize_eq, fun m hm => ?_⟩
  rcases hdata with hnone | hsame
  · rw [hnone] at hm
    cases hm
  · have hsize := h.pending m (hsame ▸ hm)
    unfold pendingSize at hsize ⊢
    rw [hneeded, Nat.add_zero, ite_self] at hsize
    rwa [if_neg fun hs => hq hs.1]

theorem Bounded.endFrame (h : Bounded maxSize p) (hneeded : p.bytesNeeded = 0)
    (hr : p.endFrame = .ok q) : Bounded maxSize q := by
  unfold Hybi13.endFrame finalizeMessage at hr
  split_ifs at hr
  · cases hr
    exact h.leave hneeded (fun hs => (by cases hs)) rfl (Or.inr rfl)
  · cases hr
    exact h.leave hneeded (fun hs => (by cases hs)) rfl (Or.inr rfl)

theorem Bounded.consumeApplication (h : Bounded maxSize p) (hs : p.Sound)
    (hp : p.state = .application) (hr : p.consumeApplication buf = .ok (q, rest)) :
    Bounded maxSize q := by
  have htake : (buf.take (min p.bytesNeeded buf.length)).length ≤ p.bytesNeeded := by
    rw [List.length_take]
    omega
  unfold Hybi13.consumeApplication at hr
  dsimp only at hr
  cases he : (if min p.bytesNeeded buf.length > 0 then
      p.processPayloadBytes (buf.take (min p.bytesNeeded buf.length)) else .ok p) with
  | error ec =>
    rw [he] at hr
    cases hr
  | ok r =>
    have hb : Bounded maxSize r := by
      split_ifs at he
      · exact h.processPayloadBytes hs hp htake he
      · cases he
        exact h
    rw [he] at hr
    replace hr : ((if r.bytesNeeded > 0 then .ok r else r.endFrame) >>= fun r' =>
      Except.ok (r', buf.drop (min p.bytesNeeded buf.length))) = .ok (q, rest) := hr
    by_cases hneeded : r.bytesNeeded > 0
    · rw [if_pos hneeded] at hr
      cases hr
      exact hb
    · rw [if_neg hneeded] at hr
      cases hend : r.endFrame with
      | error ec =>
        rw [hend] at hr
        cases hr
      | ok r' =>
        rw [hend] at hr
        cases hr
        exact hb.endFrame (Nat.eq_zero_of_not_pos hneeded) hend

/-- One round of the loop. -/
theorem Bounded.consumeRound (h : Bounded maxSize p) (hs : p.Sound)
    (hr : p.consumeRound buf = .ok (q, rest)) : Bounded maxSize q := by
  unfold Hybi13.consumeRound at hr
  cases hp : p.state with
  | headerBasic =>
    rw [hp] at hr
    exact h.consumeBasic hp hr
  | headerExtended =>
    rw [hp] at hr
    exact h.consumeExtended hp hr
  | extension => exact absurd hp hs.inside.1
  | application =>
    rw [hp] at hr
    exact h.consumeApplication hs hp hr
  | ready =>
    rw [hp] at hr
    cases hr
  | fatalError => exact absurd hp hs.inside.2

theorem Bounded.consumeLoop (h : Bounded maxSize p) (hs : p.Sound) (fuel : ℕ)
    (hr : Hybi13.consumeLoop fuel p buf = .ok (q, rest)) : Bounded maxSize q ∧ q.Sound := by
  induction fuel generalizing p buf with
  | zero =>
    cases hr
    exact ⟨h, hs⟩
  | succ fuel ih =>
    unfold Hybi13.consumeLoop at hr
    by_cases hc : p.continues buf
    · rw [if_pos hc] at hr
      cases hround : p.consumeRound buf with
      | error ec =>
        rw [hround] at hr
        cases hr
      | ok r =>
        obtain ⟨r, buf'⟩ := r
        rw [hround] at hr
        obtain ⟨hs', -⟩ := hs.consumeRound ((continues_iff buf).mp hc).1 hround
        exact ih (h.consumeRound hs hround) hs' hr
    · rw [if_neg hc] at hr
      cases hr
      exact ⟨h, hs⟩

theorem dataMsg_taken (p : Hybi13) (m : Message) :
    (p.taken m).dataMsg.msgPtr = none ∨ (p.taken m).dataMsg = p.dataMsg := by
  unfold taken setCurrent
  cases p.currentMsg <;> cases m.opcode.isControl
  · exact Or.inl rfl
  · exact Or.inl rfl
  · exact Or.inl rfl
  · exact Or.inr rfl

theorem Bounded.getMessage (h : Bounded maxSize p) (hs : p.Sound) (hready : p.state = .ready) :
    Bounded maxSize p.getMessage.2 := by
  obtain ⟨m, hm⟩ := Option.isSome_iff_exists.mp (hs.message (Or.inr hready))
  rw [getMessage_eq hready hm]
  rcases p.dataMsg_taken m with hnone | hsame
  · refine ⟨(maxMessageSize_taken p m).trans h.maxSize_eq, fun m' hm' => ?_⟩
    rw [hnone] at hm'
    cases hm'
  · exact h.same (by rw [hready]; decide) (fun hs => (by cases hs)) (maxMessageSize_taken p m) hsame

end Hybi13

section receive

variable {maxSize : ℕ} {p q : Hybi13} {buf : List UInt8}

theorem bounded_receiveLoop (h : p.Bounded maxSize) (hs : p.Sound) (fuel : ℕ)
    (hr : (receiveLoop fuel p buf).result = .ok q) : q.Bounded maxSize := by
  induction fuel generalizing p buf with
  | zero =>
    cases hr
    exact h
  | succ fuel ih =>
    unfold receiveLoop at hr
    by_cases hbuf : buf = []
    · rw [if_pos hbuf] at hr
      cases hr
      exact h
    rw [if_neg hbuf] at hr
    cases hc : p.consume buf with
    | error ec =>
      rw [hc] at hr
      cases hr
    | ok r =>
      obtain ⟨r, rest⟩ := r
      obtain ⟨hb, hs'⟩ := h.consumeLoop hs _ hc
      rw [hc] at hr
      dsimp only at hr
      by_cases hready : r.ready
      · rw [if_pos hready] at hr
        have hstate : r.state = .ready := by simpa [Hybi13.ready] using hready
        exact ih (hb.getMessage hs' hstate) (hs'.getMessage hstate).sound hr
      · rw [if_neg hready] at hr
        exact ih hb hs' hr

/-- Whatever arrives in whatever buffers, the data message under way has no more than the
maximum, unless what it has and what its frame is still to bring is too much for a word. -/
theorem stored_bounded (server : Bool) (maxSize : ℕ) (bufs : List (List UInt8)) (p : Hybi13)
    (m : Message) (hp : (receiveAll (.new server maxSize) bufs).result = .ok p)
    (hm : p.dataMsg.msgPtr = some m) :
    m.payload.length ≤ maxSize ∨ 2 ^ 64 ≤ m.payload.length + p.bytesNeeded := by
  have hnew := (between_new server maxSize).reading
  rw [receiveAll_eq hnew] at hp
  have hb : (Hybi13.new server maxSize).Bounded maxSize := ⟨rfl, fun m hm => (by cases hm)⟩
  have hsize := (bounded_receiveLoop hb hnew.sound _ hp).pending m hm
  unfold pendingSize at hsize
  by_cases hwrap : 2 ^ 64 ≤ m.payload.length + p.bytesNeeded
  · exact Or.inr hwrap
  · left
    split_ifs at hsize
    · omega
    · omega

theorem stored_bounded_half : ([104] : List UInt8).length ≤ 2 ∨ 2 ^ 64 ≤ 1 + 1 :=
  stored_bounded false 2 [[1, 2, 104]]
    { server := false, maxMessageSize := 2, state := .application, bytesNeeded := 1
      basicHeader := ⟨1, 2⟩
      dataMsg := { msgPtr := some { opcode := .text, payload := [104] }
                   validator := { codepoint := 104 } } }
    { opcode := .text, payload := [104] } (by decide +kernel) rfl

/-- A continuation that announces all but one of `2 ^ 64` bytes gets past a maximum of two. -/
example :
    (receiveAll (.new false 2) [[1, 2, 104, 105], [0, 127, 255, 255, 255, 255, 255, 255, 255, 255],
      [106, 107, 108]]).result.toOption.bind (fun p => p.dataMsg.msgPtr.map (·.payload)) =
      some [104, 105, 106, 107, 108] := by decide +kernel

end receive

end PeerApi.Websocket
