import ChainSync.Ancestor
import ChainSync.Headers.SkeletonFetch
import ChainSync.Proofs.Fetch.Failures
import ChainSync.Proofs.Headers.Given
set_option autoImplicit false

/-!
Whatever goes wrong with headers is held against the master: its own answers, and a skeleton that
others contradict. A request that cannot be made is told apart.
-/

namespace ChainSync

open Fetch

/-- Some question to the local chain ends in this error. -/
inductive ChainView.Fails (view : ChainView) : ChainError → Prop where
  | current {err : ChainError} (h : view.currentHeader = .error err) : view.Fails err
  | header {err : ChainError} {hash : Hash} (h : view.headerByHash hash = .error err) :
      view.Fails err
  | weight {err : ChainError} {hash : Hash} (h : view.totalDifficulty hash = .error err) :
      view.Fails err

namespace HeaderFill

/-- Every gap has the anchor that it is checked against. -/
structure Anchored (master : PeerId) (f : HeaderFill) : Prop where
  master : f.master = master
  opened : ∃ ranges taken, Bench.Undivided ranges ⟨f.queue, taken⟩ ∧
    ∀ r ∈ ranges, (f.anchors.get? (r.start - 1)).isSome

section Anchors

variable {master : PeerId} {f : HeaderFill}

theorem Given.anchored {engine : Engine} {anchors : Positioned Header} {ranges : List Range}
    (h : f.Given engine anchors master ranges)
    (opened : ∀ r ∈ ranges, (anchors.get? (r.start - 1)).isSome) : f.Anchored master := by
  obtain ⟨taken, undivided⟩ := h.undivided
  exact ⟨h.master_eq, ranges, taken, undivided, h.anchors_eq ▸ opened⟩

/-- As nothing that a fill was given changes, it keeps its anchors. -/
theorem Anchored.given (h : f.Anchored master) :
    ∃ ranges, f.Given f.engine f.anchors master ranges ∧
      ∀ r ∈ ranges, (f.anchors.get? (r.start - 1)).isSome := by
  obtain ⟨ranges, taken, undivided, opened⟩ := h.opened
  exact ⟨ranges, ⟨rfl, rfl, h.master, taken, undivided⟩, opened⟩

theorem lasting_anchored (σ : Type) (master : PeerId) :
    Lasting σ fun f : HeaderFill => f.Anchored master where
  reserve h hr := by
    obtain ⟨ranges, given, opened⟩ := h.given
    exact Given.anchored ((lasting_given σ ..).reserve given hr) opened
  fail id h := by
    obtain ⟨ranges, given, opened⟩ := h.given
    exact Given.anchored ((lasting_given σ ..).fail id given) opened
  failPeer peer h := by
    obtain ⟨ranges, given, opened⟩ := h.given
    exact Given.anchored ((lasting_given σ ..).failPeer peer given) opened
  deliver board id peer payload h := by
    obtain ⟨ranges, given, opened⟩ := h.given
    exact Given.anchored (given_deliver given id peer payload.headersOf) opened
  current _ _ _ _ _ := rfl
  known f _ id peer payload := f.deliver_known id peer payload.headersOf

/-- Whoever is found wrong, it is the master that is blamed. -/
theorem deliver_blames (h : f.Anchored master) {id : RequestId} {peer : PeerId}
    {headers : List Header} {err : SyncError}
    (failed : (f.deliver id peer headers).2 = .error err) : err.Blames master := by
  unfold deliver at failed
  split at failed
  · cases failed
  · rename_i r queue ht
    dsimp only at failed
    split at failed
    · rename_i unanchored
      obtain ⟨ranges, given, opened⟩ := h.given
      simpa [unanchored] using opened r.range (given.mem_ranges ht)
    · split at failed
      · split at failed
        · simp only [dispute] at failed
          split at failed
          · rename_i heq
            split at heq
            · cases heq
              cases failed
              exact ⟨rfl, congrArg some h.master⟩
            · cases heq
          · cases failed
        · cases failed
      · split at failed <;> cases failed

end Anchors

section Start

variable {skeleton : List Header}

/-- Every gap begins right above the origin or a header of the skeleton. -/
theorem gap_opens {previous : Nat} {r : Range} (h : r ∈ gaps previous skeleton) :
    r.start - 1 = previous ∨ ∃ s ∈ skeleton, r.start - 1 = s.height := by
  induction skeleton generalizing previous with
  | nil => cases h
  | cons s rest ih =>
    rcases List.mem_cons.mp h with rfl | h
    · exact .inl rfl
    · rcases ih h with heq | ⟨g, hg, heq⟩
      · exact .inr ⟨s, List.mem_cons_self .., heq⟩
      · exact .inr ⟨g, List.mem_cons_of_mem _ hg, heq⟩

theorem anchors_isSome (anchors : Positioned Header) {n : Nat}
    (h : (anchors.get? n).isSome ∨ ∃ s ∈ skeleton, n = s.height) :
    ((skeleton.foldl (fun m h => m.insert h.height h) anchors).get? n).isSome := by
  induction skeleton generalizing anchors with
  | nil => exact h.resolve_right (by simp)
  | cons s rest ih =>
    refine ih (anchors.insert s.height s) ?_
    rcases h with h | ⟨g, hg, rfl⟩
    · exact .inl (Positioned.isSome_insert (.inr h))
    · rcases List.mem_cons.mp hg with rfl | hg
      · exact .inl (Positioned.isSome_insert (.inl rfl))
      · exact .inr ⟨g, hg, rfl⟩

theorem anchored_start (session : Nat) (origin : Header) (skeleton : List Header) (master : PeerId)
    (engine : Engine) (limit : Nat) :
    (HeaderFill.start session origin skeleton master engine limit).Anchored master := by
  refine (given_start session origin skeleton master engine limit).anchored fun r hr => ?_
  refine anchors_isSome _ ?_
  rcases gap_opens (List.mem_of_mem_filter hr) with heq | hs
  · exact .inl (by simp [heq, Positioned.get?])
  · exact .inr hs

end Start
end HeaderFill

section Queries

variable {σ : Type} {h h' : Hub σ} {cancelled : Bool} {signal : Signal} {err : SyncError}

namespace HeaderQuery

theorem ask_peer {peer : SyncPeer} {request : HeadersRequest} {q : HeaderQuery}
    (asked : ask h peer request cancelled = (h', .ok q)) : q.call.peer = peer.id := by
  unfold ask at asked
  split at asked
  · cases asked
  · split at asked <;> cases asked
    rfl

theorem ask_error {peer : SyncPeer} {request : HeadersRequest}
    (failed : ask h peer request cancelled = (h', .error err)) :
    (err = .cancelled ∧ cancelled = true) ∨
      ∃ e, err = .peerSet e ∧ h'.peers.beginRequest peer.id .headers = .error e := by
  unfold ask at failed
  split at failed
  · rename_i e refused
    cases failed
    exact .inr ⟨e, rfl, refused⟩
  · split at failed <;> cases failed
    exact .inl ⟨rfl, ‹_›⟩

theorem step_error {q : HeaderQuery}
    (failed : q.step h cancelled signal = (h', some (.error err))) :
    (err = .cancelled ∧ cancelled = true) ∨ err.Blames q.call.peer := by
  cases signal with
  | ended ticket ending =>
    simp only [step] at failed
    split at failed
    · cases ending with
      | answered payload => cases failed
      | failed e =>
        cases failed
        exact .inr ⟨rfl, rfl⟩
      | timedOut =>
        cases failed
        exact .inr ⟨rfl, rfl⟩
    · cases failed
  | woken =>
    simp only [step] at failed
    split at failed <;> cases failed
    exact .inl ⟨rfl, ‹_›⟩
  | deadline => cases failed

end HeaderQuery

namespace SkeletonFetch

variable {master : SyncPeer} {f g : SkeletonFetch}

/-- A skeleton that the master is being asked for. -/
structure AskedOf (master : SyncPeer) (f : SkeletonFetch) : Prop where
  same : f.master = master
  call : f.query.call.peer = master.id

/-- Why there is no skeleton, with what the hub has come to. -/
inductive Failure (master : PeerId) (cancelled : Bool) (h : Hub σ) : SyncError → Prop where
  | cancelled (seen : cancelled = true) : Failure master cancelled h .cancelled
  | master {err : SyncError} (blamed : err.Blames master) : Failure master cancelled h err
  | unasked {e : PeerSetError} (refused : h.peers.beginRequest master .headers = .error e) :
      Failure master cancelled h (.peerSet e)

theorem checkSkeleton_error {master : PeerId} {start stop size : Nat} {skeleton : List Header}
    (failed : checkSkeleton master start stop size skeleton = .error err) : err.Blames master := by
  unfold checkSkeleton at failed
  dsimp only at failed
  split at failed <;> cases failed
  exact ⟨rfl, rfl⟩

theorem advance_asked {start stop size : Nat} {received : List Header}
    {requests : List HeadersRequest}
    (asked : (advance h cancelled master start stop size received requests).2 = .ok (.inl f)) :
    f.AskedOf master := by
  cases requests with
  | nil =>
    simp only [advance] at asked
    cases hc : checkSkeleton master.id start stop size received <;> simp [hc, Except.map] at asked
  | cons request remaining =>
    simp only [advance] at asked
    split at asked
    · cases asked
    · rename_i query heq
      cases asked
      exact ⟨rfl, HeaderQuery.ask_peer heq⟩

theorem advance_error {start stop size : Nat} {received : List Header}
    {requests : List HeadersRequest}
    (failed : (advance h cancelled master start stop size received requests).2 = .error err) :
    Failure master.id cancelled (advance h cancelled master start stop size received requests).1
      err := by
  cases requests with
  | nil =>
    simp only [advance] at failed ⊢
    cases hc : checkSkeleton master.id start stop size received with
    | ok skeleton => simp [hc, Except.map] at failed
    | error e =>
      simp only [hc, Except.map, Except.error.injEq] at failed
      exact .master (failed ▸ checkSkeleton_error hc)
  | cons request remaining =>
    simp only [advance] at failed ⊢
    split at failed
    · rename_i h' e heq
      cases failed
      rcases HeaderQuery.ask_error heq with ⟨rfl, seen⟩ | ⟨e, rfl, refused⟩
      · exact .cancelled seen
      · exact .unasked refused
    · cases failed

theorem step_asked (asked : f.AskedOf master)
    (going : (f.step h cancelled signal).2 = .ok (.inl g)) : g.AskedOf master := by
  unfold step at going
  split at going
  · cases going
    exact asked
  · cases going
  · exact asked.same ▸ advance_asked going

theorem step_error (asked : f.AskedOf master)
    (failed : (f.step h cancelled signal).2 = .error err) :
    Failure master.id cancelled (f.step h cancelled signal).1 err := by
  unfold step at failed ⊢
  split at failed
  · cases failed
  · rename_i heq
    cases failed
    rcases HeaderQuery.step_error heq with ⟨rfl, seen⟩ | blamed
    · exact .cancelled seen
    · exact .master (asked.call ▸ blamed)
  · rw [← asked.same]
    exact advance_error failed

end SkeletonFetch

namespace AncestorSearch

variable {master : SyncPeer} {s t : AncestorSearch}

/-- A search that the master is being asked about. -/
structure AskedOf (master : SyncPeer) (s : AncestorSearch) : Prop where
  same : s.peer = master
  call : s.query.call.peer = master.id

theorem probe_asked {localHead : Header} {maxForkAncestry probes : Nat} {aim : Aim}
    (asked : (probe h cancelled master localHead maxForkAncestry probes aim).2 = .ok (.inl s)) :
    s.AskedOf master := by
  unfold probe at asked
  dsimp only at asked
  split at asked
  · rename_i query heq
    cases asked
    exact ⟨rfl, HeaderQuery.ask_peer heq⟩
  · cases asked
  · cases asked

theorem probe_error {localHead : Header} {maxForkAncestry probes : Nat} {aim : Aim}
    (failed : (probe h cancelled master localHead maxForkAncestry probes aim).2 = .error err) :
    (err = .cancelled ∧ cancelled = true) ∨ err.Blames master.id := by
  unfold probe at failed
  dsimp only at failed
  split at failed
  · cases failed
  · rename_i heq
    cases failed
    rcases HeaderQuery.ask_error heq with seen | ⟨e, hne, -⟩
    · exact .inl seen
    · cases hne
  · cases failed
    exact .inr ⟨rfl, rfl⟩

variable {view : ChainView}

theorem lookUp_error {peer : PeerId} {number : Nat} {headers : List Header}
    (failed : lookUp peer view number headers = .error err) :
    err.Blames peer ∨ ∃ e, err = .chain e ∧ view.Fails e := by
  unfold lookUp at failed
  split at failed
  · split at failed
    · cases failed
      exact .inl ⟨rfl, rfl⟩
    · split at failed
      · rename_i e heq
        cases failed
        exact .inr ⟨e, rfl, .header heq⟩
      · cases failed
  · cases failed
    exact .inl ⟨rfl, rfl⟩

theorem checkDepth_error {header : Header} (failed : s.checkDepth header = .error err) :
    err.Blames s.peer.id := by
  unfold checkDepth at failed
  dsimp only at failed
  split at failed <;> cases failed
  exact ⟨rfl, rfl⟩

theorem step_asked (asked : s.AskedOf master)
    (going : (s.step h cancelled view signal).2 = .ok (.inl t)) : t.AskedOf master := by
  unfold step at going
  split at going
  · cases going
    exact asked
  · cases going
  · cases going
  · dsimp only at going
    split at going
    · cases going
    · split at going
      · exact asked.same ▸ probe_asked going
      · rename_i header _
        cases hd : s.checkDepth header <;> simp [hd, Except.map] at going
      · cases going

theorem step_error (asked : s.AskedOf master)
    (failed : (s.step h cancelled view signal).2 = .error err) :
    (err = .cancelled ∧ cancelled = true) ∨ err.Blames master.id ∨
      ∃ e, err = .chain e ∧ view.Fails e := by
  unfold step at failed
  split at failed
  · cases failed
  · rename_i heq
    cases failed
    rcases HeaderQuery.step_error heq with seen | blamed
    · exact .inl seen
    · cases blamed.failure
  · cases failed
    exact .inr (.inl ⟨rfl, by rw [← asked.same]; rfl⟩)
  · dsimp only at failed
    rw [asked.same] at failed
    split at failed
    · rename_i heq
      cases failed
      exact .inr (lookUp_error heq)
    · split at failed
      · exact (probe_error failed).imp_right .inl
      · rename_i header _
        cases hd : s.checkDepth header with
        | ok ancestor => simp [hd, Except.map] at failed
        | error e =>
          simp only [hd, Except.map, Except.error.injEq] at failed
          exact .inr (.inl (failed ▸ asked.same ▸ checkDepth_error hd))
      · cases failed
        exact .inr (.inl ⟨rfl, rfl⟩)

end AncestorSearch
end Queries
end ChainSync
