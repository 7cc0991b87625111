import Mathlib.Data.List.Basic
import ChainSync.Ancestor
import ChainSync.Headers.SkeletonFetch
import ChainSync.Proofs.Fetch.Steady
import ChainSync.Proofs.Peer.Serving
set_option autoImplicit false

/-!
The heights of a skeleton, what the questions put to a single peer leave alone, and what they come
to with a peer that can be asked.
-/

namespace ChainSync

open Fetch

variable {start stop size : Nat}

theorem mem_spacedPositions {n : Nat} :
    n ∈ spacedPositions start stop size ↔
      ∃ i, i < (stop - start) / size ∧ n = start + (i + 1) * size := by
  simp only [spacedPositions, List.mem_map, List.mem_range]
  constructor
  · rintro ⟨i, hi, rfl⟩
    exact ⟨i, hi, rfl⟩
  · rintro ⟨i, hi, rfl⟩
    exact ⟨i, hi, rfl⟩

theorem spacedPositions_le {n : Nat} (h : n ∈ spacedPositions start stop size) : n ≤ stop := by
  obtain ⟨i, hi, rfl⟩ := mem_spacedPositions.mp h
  have hmul : (i + 1) * size ≤ (stop - start) / size * size := Nat.mul_le_mul_right size hi
  have hdiv := Nat.div_mul_le_self (stop - start) size
  have hpos : 0 < stop - start := by
    rcases Nat.eq_zero_or_pos (stop - start) with hz | hpos
    · rw [hz, Nat.zero_div] at hi
      exact absurd hi (Nat.not_lt_zero i)
    · exact hpos
  omega

theorem spacedPositions_ascending (hsize : 0 < size) :
    (start :: spacedPositions start stop size).Pairwise (· < ·) := by
  refine List.pairwise_cons.mpr ⟨fun n hn => ?_, ?_⟩
  · obtain ⟨i, -, rfl⟩ := mem_spacedPositions.mp hn
    have : 0 < (i + 1) * size := Nat.mul_pos (Nat.succ_pos i) hsize
    omega
  · refine List.pairwise_map.mpr (List.pairwise_lt_range.imp fun {i j} hij => ?_)
    have := Nat.mul_lt_mul_of_pos_right (Nat.succ_lt_succ hij) hsize
    exact Nat.add_lt_add_left this start

/-- Only the last of evenly spaced positions can be the end. -/
theorem getLast?_of_stop_mem (hsize : 0 < size) (h : stop ∈ spacedPositions start stop size) :
    (spacedPositions start stop size).getLast? = some stop := by
  obtain ⟨i, hi, hstop⟩ := mem_spacedPositions.mp h
  have hcount : (stop - start) / size = i + 1 := by
    rw [show stop - start = (i + 1) * size by omega, Nat.mul_div_cancel _ hsize]
  rw [spacedPositions, hcount, List.range_succ, List.map_append, List.map_cons, List.map_nil,
    List.getLast?_concat, ← hstop]

/-- The positions of a skeleton ascend from behind its start up to its stop. -/
theorem skeletonPositions_spec (hsize : 0 < size) (hlt : start < stop) :
    (start :: skeletonPositions start stop size).Pairwise (· < ·) ∧
      (skeletonPositions start stop size).getLast? = some stop := by
  have ascending : (start :: spacedPositions start stop size).Pairwise (· < ·) :=
    spacedPositions_ascending hsize
  unfold skeletonPositions
  dsimp only
  split
  · rename_i hlast
    refine ⟨?_, List.getLast?_concat⟩
    rw [← List.cons_append]
    refine List.pairwise_append.mpr ⟨ascending, List.pairwise_singleton .., fun n hn m hm => ?_⟩
    rw [List.mem_singleton.mp hm]
    rcases List.mem_cons.mp hn with rfl | hn
    · exact hlt
    · have hne : n ≠ stop := by
        rintro rfl
        exact hlast.1 (getLast?_of_stop_mem hsize hn)
      have := spacedPositions_le hn
      omega
  · rename_i hlast
    exact ⟨ascending, Decidable.not_not.mp fun hne => hlast ⟨hne, hlt⟩⟩

theorem skeletonPositions_of_le (h : stop ≤ start) : skeletonPositions start stop size = [] := by
  have none : spacedPositions start stop size = [] := by
    simp [spacedPositions, Nat.sub_eq_zero_of_le h]
  simp only [skeletonPositions, none]
  exact if_neg fun above => absurd above.2 (Nat.not_lt_of_le h)

theorem eq_of_checkSkeleton {master : PeerId} {skeleton checked : List Header}
    (h : checkSkeleton master start stop size skeleton = .ok checked) :
    checked = skeleton ∧ skeleton.map Header.height = skeletonPositions start stop size := by
  unfold checkSkeleton at h
  dsimp only at h
  split at h
  · cases h
  · rename_i heights
    cases h
    exact ⟨rfl, Decidable.not_not.mp heights⟩

variable {σ : Type}

namespace HeaderQuery

theorem ask_quiet (h : Hub σ) (peer : SyncPeer) (request : HeadersRequest) (cancelled : Bool) :
    h.Quiet (ask h peer request cancelled).1 := by
  unfold ask
  split
  · exact .refl h
  · rename_i slot peers hb
    split
    · exact .refl h
    · exact Hub.Quiet.trans (.beginRequest h hb) (.send ..)

theorem conclude_quiet (q : HeaderQuery) (h : Hub σ) (ending : Ending) :
    h.Quiet (q.conclude h ending).1 := by
  cases ending with
  | answered payload => exact ⟨rfl, rfl, PeerSet.ids_recordDelivery .., rfl⟩
  | failed err => exact .refl h
  | timedOut => exact ⟨rfl, PeerSet.config_recordTimeout .., PeerSet.ids_recordTimeout .., rfl⟩

theorem step_quiet (q : HeaderQuery) (h : Hub σ) (cancelled : Bool) (signal : Signal) :
    h.Quiet (q.step h cancelled signal).1 := by
  cases signal with
  | ended ticket ending =>
    simp only [step]
    split
    · exact Hub.Quiet.trans (.finish h q.call) (q.conclude_quiet ..)
    · exact .refl h
  | woken =>
    simp only [step]
    split
    · exact .finish h q.call
    · exact .refl h
  | deadline => exact .refl h

/-- The headers that answer a query. -/
def answer (q : HeaderQuery) : Signal → List Header
  | .ended ticket (.answered payload) => if ticket = q.call.ticket then payload.headersOf else []
  | _ => []

theorem step_answer {q : HeaderQuery} {h h' : Hub σ} {cancelled : Bool} {signal : Signal}
    {headers : List Header} (stepped : q.step h cancelled signal = (h', some (.ok headers))) :
    headers = q.answer signal := by
  cases signal with
  | ended ticket ending =>
    simp only [step] at stepped
    split at stepped
    · rename_i same
      cases ending <;> cases stepped
      simp [answer, same]
    · cases stepped
  | woken =>
    simp only [step] at stepped
    split at stepped <;> cases stepped
  | deadline => cases stepped

/-- A peer that can be asked is. -/
theorem ask_of_serves {h : Hub σ} {peer : SyncPeer} (serves : h.peers.Serves peer.id .headers 1)
    (request : HeadersRequest) :
    ∃ h' query, ask h peer request false = (h', .ok query) ∧
      h'.peers.Serves peer.id .headers 0 ∧ query.call.slot = ⟨peer.id, .headers⟩ ∧
      query.call.request = .headers request := by
  obtain ⟨slot, peers, begun, serves⟩ := serves.beginRequest
  let sent := (h.setPeers peers).send peer .headers (.headers request)
  refine ⟨sent.2, ⟨sent.1, rangeOf request⟩, ?_, serves, rfl, rfl⟩
  simp only [ask, begun, Bool.false_eq_true, if_false]
  rfl

/-- Once it has answered, a peer can be asked again. -/
theorem step_answered {q : HeaderQuery} {h : Hub σ} {id : PeerId}
    (slot : q.call.slot = ⟨id, .headers⟩) (serves : h.peers.Serves id .headers 0)
    (headers : List Header) :
    ∃ h', q.step h false (.ended q.call.ticket (.answered (.headers headers))) =
        (h', some (.ok headers)) ∧ h'.peers.Serves id .headers 1 := by
  obtain rfl : q.call.peer = id := congrArg Slot.peer slot
  have released : (h.finish q.call).peers.Serves q.call.peer .headers 1 := by
    rw [Hub.finish, slot]
    exact serves.release
  refine ⟨(q.conclude (h.finish q.call) (.answered (.headers headers))).1, ?_,
    released.recordDelivery headers.length ((h.finish q.call).elapsed q.call)⟩
  simp only [step, if_true]
  rfl

theorem ask_known (h : Hub σ) (peer : SyncPeer) (request : HeadersRequest) (cancelled : Bool)
    (hash : Hash) : (ask h peer request cancelled).2 ≠ .error (.unknownBlock hash) := by
  unfold ask
  split
  · simp
  · split <;> simp

theorem step_known (q : HeaderQuery) (h : Hub σ) (cancelled : Bool) (signal : Signal)
    (hash : Hash) :
    (q.step h cancelled signal).2 ≠ some (.error (.unknownBlock hash)) := by
  cases signal with
  | ended ticket ending =>
    simp only [step]
    split
    · cases ending <;> simp [conclude]
    · simp
  | woken =>
    simp only [step]
    split <;> simp
  | deadline => simp [step]

end HeaderQuery

namespace SkeletonFetch

variable {P : Header → Prop}

/-- A skeleton that is still being asked for, or one that was checked. -/
structure Sound (P : Header → Prop) (start stop size : Nat) (h : Hub σ)
    (out : Hub σ × Except SyncError (SkeletonFetch ⊕ List Header)) : Prop where
  quiet : h.Quiet out.1
  asking : ∀ f, out.2 = .ok (.inl f) →
    f.start = start ∧ f.stop = stop ∧ f.size = size ∧ ∀ g ∈ f.received, P g
  complete : ∀ skeleton, out.2 = .ok (.inr skeleton) →
    skeleton.map Header.height = skeletonPositions start stop size ∧ ∀ g ∈ skeleton, P g
  known : ∀ hash, out.2 ≠ .error (.unknownBlock hash)

theorem advance_sound (h : Hub σ) (cancelled : Bool) (master : SyncPeer) (start stop size : Nat)
    {received : List Header} (told : ∀ g ∈ received, P g) (requests : List HeadersRequest) :
    Sound P start stop size h (advance h cancelled master start stop size received requests) := by
  cases requests with
  | nil =>
    refine ⟨.refl h, fun f hf => ?_, fun skeleton hs => ?_, fun hash hf => ?_⟩
    · simp only [advance] at hf
      cases hc : checkSkeleton master.id start stop size received <;> simp [hc, Except.map] at hf
    · simp only [advance] at hs
      cases hc : checkSkeleton master.id start stop size received with
      | error err => simp [hc, Except.map] at hs
      | ok checked =>
        simp only [hc, Except.map, Except.ok.injEq, Sum.inr.injEq] at hs
        obtain ⟨rfl, heights⟩ := eq_of_checkSkeleton hc
        exact hs ▸ ⟨heights, told⟩
    · simp only [advance] at hf
      cases hc : checkSkeleton master.id start stop size received with
      | ok checked => simp [hc, Except.map] at hf
      | error err =>
        simp only [hc, Except.map, Except.error.injEq] at hf
        unfold checkSkeleton at hc
        dsimp only at hc
        split at hc <;> cases hc
        cases hf
  | cons request remaining =>
    have quiet := HeaderQuery.ask_quiet h master request cancelled
    have known := HeaderQuery.ask_known h master request cancelled
    simp only [advance]
    split
    · rename_i h' err heq
      rw [heq] at quiet known
      exact ⟨quiet, by simp, by simp, by simpa using known⟩
    · rename_i h' query heq
      rw [heq] at quiet
      refine ⟨quiet, fun f hf => ?_, by simp, by simp⟩
      cases hf
      exact ⟨rfl, rfl, rfl, told⟩

theorem step_sound (f : SkeletonFetch) (h : Hub σ) (cancelled : Bool) {signal : Signal}
    (told : ∀ g ∈ f.received ++ f.query.answer signal, P g) :
    Sound P f.start f.stop f.size h (f.step h cancelled signal) := by
  have quiet := f.query.step_quiet h cancelled signal
  have known := f.query.step_known h cancelled signal
  unfold step
  split
  · rename_i h' heq
    rw [heq] at quiet
    refine ⟨quiet, fun g hg => ?_, by simp, by simp⟩
    cases hg
    exact ⟨rfl, rfl, rfl, fun g hg => told g (List.mem_append_left _ hg)⟩
  · rename_i h' err heq
    rw [heq] at quiet known
    exact ⟨quiet, by simp, by simp, by simpa using known⟩
  · rename_i h' headers heq
    rw [heq] at quiet
    rw [← HeaderQuery.step_answer heq] at told
    have advanced := advance_sound h' cancelled f.master f.start f.stop f.size told f.remaining
    exact ⟨quiet.trans advanced.quiet, advanced.asking, advanced.complete, advanced.known⟩

/-- A segment that does not end above its start is asked of nobody. -/
theorem begin_of_le (h : Hub σ) (cancelled : Bool) (master : SyncPeer) {start stop : Nat}
    (size : Nat) (low : stop ≤ start) :
    begin h cancelled master start stop size = (h, .ok (.inr [])) := by
  simp [begin, advance, skeletonRequests, checkSkeleton, skeletonPositions_of_le low, Except.map]

theorem advance_quiet (h : Hub σ) (cancelled : Bool) (master : SyncPeer) (start stop size : Nat)
    (received : List Header) (requests : List HeadersRequest) :
    h.Quiet (advance h cancelled master start stop size received requests).1 :=
  (advance_sound (P := fun _ => True) h cancelled master start stop size (fun _ _ => trivial)
    requests).quiet

theorem step_quiet (f : SkeletonFetch) (h : Hub σ) (cancelled : Bool) (signal : Signal) :
    h.Quiet (f.step h cancelled signal).1 :=
  (step_sound (P := fun _ => True) f h cancelled fun _ _ => trivial).quiet

end SkeletonFetch

namespace AncestorSearch

theorem probe_quiet (h : Hub σ) (cancelled : Bool) (peer : SyncPeer) (localHead : Header)
    (maxForkAncestry probes : Nat) (aim : Aim) :
    h.Quiet (probe h cancelled peer localHead maxForkAncestry probes aim).1 := by
  have quiet := HeaderQuery.ask_quiet h peer
    (.single (.number (aim.number (height peer localHead)))) cancelled
  unfold probe
  dsimp only
  split <;> rename_i heq <;> rw [heq] at quiet <;> exact quiet

theorem step_quiet (s : AncestorSearch) (h : Hub σ) (cancelled : Bool) (view : ChainView)
    (signal : Signal) : h.Quiet (s.step h cancelled view signal).1 := by
  have quiet := s.query.step_quiet h cancelled signal
  unfold step
  split
  · rename_i heq
    rw [heq] at quiet
    exact quiet
  · rename_i heq
    rw [heq] at quiet
    exact quiet
  · rename_i heq
    rw [heq] at quiet
    exact quiet
  · rename_i h' headers heq
    rw [heq] at quiet
    dsimp only
    split
    · exact quiet
    · split
      · exact quiet.trans (probe_quiet ..)
      · exact quiet
      · exact quiet

theorem lookUp_known (peer : PeerId) (view : ChainView) (number : Nat) (headers : List Header)
    (hash : Hash) : lookUp peer view number headers ≠ .error (.unknownBlock hash) := by
  unfold lookUp
  split
  · split
    · simp
    · split <;> simp
  · simp

theorem checkDepth_known (s : AncestorSearch) (header : Header) (hash : Hash) :
    s.checkDepth header ≠ .error (.unknownBlock hash) := by
  unfold checkDepth
  dsimp only
  split <;> simp

/-- A header that the local chain does not have only narrows a search. -/
theorem step_known (s : AncestorSearch) (h : Hub σ) (cancelled : Bool) (view : ChainView)
    (signal : Signal) (hash : Hash) :
    (s.step h cancelled view signal).2 ≠ .error (.unknownBlock hash) := by
  unfold step
  split
  · simp
  · simp
  · simp
  · rename_i headers _
    have known :=
      lookUp_known s.peer.id view (s.aim.number (height s.peer s.localHead)) headers hash
    dsimp only
    split
    · rename_i heq
      rw [heq] at known
      simpa using known
    · split
      · unfold probe
        dsimp only
        split <;> simp
      · rename_i header _
        have known := s.checkDepth_known header hash
        cases hd : s.checkDepth header with
        | ok ancestor => simp [Except.map]
        | error err =>
          rw [hd] at known
          simpa [Except.map] using known
      · simp

end AncestorSearch
end ChainSync
