import PeerApi.Session.Steps

/-! The registry `peers_`: in every reachable world each entry is a live connection
stored under its own remote id, and no null peer connection or data channel has
ever been dereferenced. -/

namespace PeerApi.World

open Base

variable {env : Env} {w : World}

/-- No operation that `Control` or WebRTC runs on the object meets a null pointer. -/
structure Usable (p : PeerControl) : Prop where
  receiveAnswerSdp : ∀ sdp origin f, .crash f ∉ (p.receiveAnswerSdp sdp origin).2
  addIceCandidate : ∀ mid index candidate f, .crash f ∉ (p.addIceCandidate mid index candidate).2
  send : ∀ accepted, p.send accepted ≠ none
  syncSend : ∀ accepted drained, p.syncSend accepted drained ≠ none
  onBufferedAmountChange : ∀ side f, .crash f ∉ p.onBufferedAmountChange side

theorem usable_of_live {p : PeerControl} (h : p.Live) : Usable p := by
  obtain ⟨ch, hch⟩ := Option.isSome_iff_exists.mp h.localChannel
  constructor
  · intro sdp origin f
    simp [h.receiveAnswerSdp_eq]
  · intro mid index candidate f
    simp [h.addIceCandidate_eq]
  · intro accepted
    unfold PeerControl.send
    split_ifs <;> simp [hch]
  · intro accepted drained
    unfold PeerControl.syncSend
    split_ifs <;> simp [hch]
  · intro side f hf
    exact PeerControl.callback_ok h.toStarted (.onBufferedAmountChange side) _ hf

/-- Every entry of every registry is a live connection under its own id, its
operations meet no null pointer, and none was met on the way. -/
theorem peers_live (env : Env) (as : List Action) :
    (∀ c k x, (k, x) ∈ ((run (step env) init as).controls c).peers.entries →
      ((run (step env) init as).insts x).remoteId = k ∧
      (((run (step env) init as).insts x).state = .connecting ∨
        ((run (step env) init as).insts x).state = .open) ∧
      ((run (step env) init as).insts x).peerConnection = true ∧
      ((run (step env) init as).insts x).localDataChannel.isSome = true ∧
      Usable ((run (step env) init as).insts x)) ∧
    (run (step env) init as).fault ≠ some .nullPeerConnection ∧
    (run (step env) init as).fault ≠ some .nullDataChannel := by
  have hw := reached_run env as
  refine ⟨fun c k x hx => ?_, fun hf => ?_, fun hf => ?_⟩
  · have he := hw.entries c k x (OrderedMap.mem_entries.mp hx)
    exact ⟨he.remoteId, he.live.state, he.live.peerConnection, he.live.localChannel,
      usable_of_live he.live⟩
  · exact (hw.fault _ hf).1 rfl
  · exact (hw.fault _ hf).2 rfl

end PeerApi.World
