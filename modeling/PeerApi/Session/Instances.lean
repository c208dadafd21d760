import PeerApi.Session.Steps

/-! Properties of one `PeerControl` over whole runs. A property that holds of every
object when it is made and that each operation on it preserves holds of every
instance of every reachable world. The callbacks of the run may be restricted by a
condition on the object and the callback. -/

namespace PeerApi

/-- The condition of a run that only restricts the callbacks of instances. -/
def World.Reports (report : PeerControl → Callback → Prop) (w : World) : World.Action → Prop
  | .callback x cb => report (w.insts x) cb
  | _ => True

namespace World

open Base

/-- What each operation on an object has to preserve. -/
structure Stable (env : Env) (report : PeerControl → Callback → Prop) (P : PeerControl → Prop) :
    Prop where
  begun : ∀ {p c}, Begun p c → P p
  rejected : ∀ c localId remoteId, P (PeerControl.new c localId remoteId)
  callback : ∀ {p cb}, p.Started → report p cb → P p → P (logged (p.callback cb))
  answered : ∀ {p} sdp origin, p.Live → P p →
    P (logged (p.setRemoteDescription .answer sdp, [.answered origin]))
  candidate : ∀ {p} candidates, p.Live → P p → P { p with candidates := candidates }
  closed : ∀ {p} x code, p.Live → P p → P (logged ((p.close code (env.onRelease x)).1,
    .removed :: (p.close code (env.onRelease x)).2))
  released : ∀ {p}, P p → P { p with released := true }

variable {env : Env} {report : PeerControl → Callback → Prop} {P : PeerControl → Prop} {w w' : World}

/-- The guard of such a run. -/
def reportGuard (report : PeerControl → Callback → Prop) : Guard :=
  { Guard.free with report := fun w x cb => report (w.insts x) cb }

theorem admitted_of_reports {a : Action} (h : Reports report w a) :
    Admitted env (reportGuard report) w a := by
  cases a with
  | process =>
    exact fun m queue _ =>
      ⟨trivial, fun _ _ => trivial, fun _ _ _ _ _ _ => trivial, fun _ _ _ _ _ => trivial⟩
  | callback x cb => exact ⟨h, fun _ _ => trivial⟩
  | _ => trivial

/-- Every instance has the property. -/
def Everywhere (P : PeerControl → Prop) (w : World) : Prop := ∀ x, x < w.nextInst → P (w.insts x)

theorem Everywhere.same (h : Everywhere P w) (hs : SameRegistry w w') : Everywhere P w' := by
  intro x hx
  rw [hs.insts]
  exact h x (hs.nextInst ▸ hx)

theorem Everywhere.setInst (h : Everywhere P w) {x : ℕ} {p : PeerControl} (hp : P p) :
    Everywhere P (w.setInst x p) := by
  intro y hy
  by_cases hyx : y = x
  · subst hyx
    rwa [setInst_insts_self]
  · rw [setInst_insts_ne hyx]
    exact h y hy

theorem Everywhere.newInst (h : Everywhere P w) {p : PeerControl} (hp : P p) :
    Everywhere P (w.newInst p) := by
  intro x hx
  rcases Nat.lt_succ_iff_lt_or_eq.mp hx with hx | rfl
  · rw [newInst_insts_lt hx]
    exact h x hx
  · rwa [newInst_insts_self]

theorem Stable.tick {G : Guard} (hP : Stable env report P)
    (hG : ∀ w x cb, G.report w x cb → report (w.insts x) cb) (h : Tick env G w w')
    (hw : Sound env w) (hp : Everywhere P w) : Everywhere P w' := by
  cases h with
  | call h => exact hp.same h.same
  | dequeued m queue h => exact hp
  | received c message origin thread ok => exact hp
  | callback x cb hx alive started report h =>
    exact (hp.setInst (hP.callback started (hG w x cb report) (hp x hx))).same h.same
  | answered c k x sdp origin h from_ =>
    have hl := (hw.entries c k x h).live
    rw [hl.receiveAnswerSdp_eq]
    exact hp.setInst (hP.answered sdp origin hl (hp x (hw.bound c k x h)))
  | candidate c k x sdpMid sdpMlineIndex candidate h =>
    have hl := (hw.entries c k x h).live
    rw [hl.addIceCandidate_eq]
    simp only [logged, List.append_nil]
    exact hp.setInst (hP.candidate _ hl (hp x (hw.bound c k x h)))
  | closed c k x code h calls =>
    have hc := hP.closed x code (hw.entries c k x h).live (hp x (hw.bound c k x h))
    have he : Everywhere P (w.modifyControl c fun q => { q with peers := q.peers.erase k }) := hp
    exact (he.setInst hc).same calls.same
  | registered c p ids thread new starts => exact hp.newInst (hP.begun new.begun)
  | rejected c remoteId thread failed =>
    rw [newPeer_failed failed]
    exact hp.newInst (hP.rejected _ _ _)

theorem Stable.releases (hP : Stable env report P) (hp : Everywhere P w) :
    Everywhere P w.releaseControls.releaseInsts := by
  intro x hx
  have hx' : P (w.releaseControls.insts x) := hp x hx
  by_cases h : w.releaseControls.Lost x
  · rw [releaseInsts_lost h]
    exact hP.released hx'
  · rwa [releaseInsts_stays h]

theorem Stable.ticks {G : Guard} (hP : Stable env report P)
    (hG : ∀ w x cb, G.report w x cb → report (w.insts x) cb) (h : Ticks env G w w')
    (hw : Sound env w) (hp : Everywhere P w) : Everywhere P w' :=
  (calls_invariant (P := fun w => Sound env w ∧ Everywhere P w)
    (fun h hw => ⟨h.sound hw.1, hP.tick hG h hw.1 hw.2⟩) h ⟨hw, hp⟩).2

theorem Stable.step (hP : Stable env report P) (hw : Reached env w) (hp : Everywhere P w)
    {a : Action} (ha : Reports report w a) : Everywhere P (w.step env a) := by
  rcases step_ticks hw (admitted_of_reports ha) with h | ⟨-, ht, h⟩
  · rwa [h]
  · rw [h]
    exact hP.releases (hP.ticks (fun _ _ _ h => h) ht hw.toSound hp)

/-- A stable property holds of all instances in all admitted runs. -/
theorem Stable.run (hP : Stable env report P) {as : List Action}
    (ha : Along (World.step env) (Reports report) init as) :
    Everywhere P (Base.run (World.step env) init as) := by
  have h := ha.invariant (P := fun w => Reached env w ∧ Everywhere P w)
    (fun w a hw hr => ⟨hw.1.step a, hP.step hw.1 hw.2 hr⟩)
    ⟨reached_init env, fun x hx => by cases hx⟩
  exact h.2

end World

end PeerApi
