import ChainSync.Proofs.Fetch.Desk
import ChainSync.Proofs.Fetch.Undivided
import ChainSync.Proofs.Headers.Backed
import ChainSync.Proofs.Headers.Settled
set_option autoImplicit false

namespace ChainSync

open Fetch

def Fetch.receivedHeaders (moves : List Move) : List Header :=
  (received moves).flatMap Payload.headersOf

namespace HeaderFill

/-- What is handed out comes from the queue, and nothing else changes. -/
theorem reserve_eq_some {f g : HeaderFill} {peer : PeerId} {capacity : Nat} {live : List PeerId}
    {a : Assignment} (h : f.reserve peer capacity live = some (a, g)) :
    ∃ id range queue, f.queue.reserve peer capacity live = some (id, range, queue) ∧
      a = ⟨id, range, .headers (.range range.start range.count)⟩ ∧ g = { f with queue } := by
  rw [reserve, Option.map_eq_some_iff] at h
  obtain ⟨⟨id, range, queue⟩, hr, heq⟩ := h
  cases heq
  exact ⟨id, range, queue, hr, rfl, rfl⟩

theorem faultless {f : HeaderFill} {range : Range} {parent : Header} {headers : List Header}
    (h : f.fault? range parent headers = none) :
    firstFault f.engine range range.start parent headers = none ∧
      (headers.length = range.count → headers.getLast?.map Header.hash =
        (f.anchors.get? (range.stop - 1)).map Header.hash) := by
  unfold fault? at h
  split at h
  · simp at h
  rename_i hfirst
  refine ⟨hfirst, fun hlen => ?_⟩
  split at h
  · simp at h
  rename_i hlast
  exact Decidable.not_not.mp fun hne => hlast ⟨hlen, hne⟩

theorem dispute_fst (f : HeaderFill) (peer : PeerId) (range : Range) (reason : String) :
    (f.dispute peer range reason).1 = { f with mismatches := f.mismatches.insert peer } := by
  simp only [dispute]
  split <;> rfl

/-- What a fill finds wrong it finds without the local chain. -/
theorem deliver_known (f : HeaderFill) (id : RequestId) (peer : PeerId) (headers : List Header)
    (hash : Hash) : (f.deliver id peer headers).2 ≠ .error (.unknownBlock hash) := by
  unfold deliver
  split
  · simp
  · dsimp only
    split
    · simp
    · split
      · split
        · simp only [dispute]
          split
          · rename_i heq
            split at heq <;> cases heq
            simp
          · simp
        · simp
      · split <;> simp

/-- An answer changes nothing, ends the fetch, puts all of its request back, or is kept whole. -/
theorem deliver_cases (f : HeaderFill) (id : RequestId) (peer : PeerId) (headers : List Header) :
    f.queue.take? id = none ∧ (f.deliver id peer headers).1 = f ∨
    ∃ r queue, f.queue.take? id = some (r, queue) ∧
      ((∃ mismatches, (f.deliver id peer headers).1 = { f with queue, mismatches } ∧
        ∃ err, (f.deliver id peer headers).2 = .error err) ∨
      (∃ mismatches atFault, (f.deliver id peer headers).1 =
        { f with queue := queue.complete r [] atFault, mismatches }) ∨
      (f.deliver id peer headers).1 = { f with queue := queue.complete r headers false }.collect ∧
        headers.length = r.range.count ∧
        ∃ opening, f.anchors.get? (r.range.start - 1) = some opening ∧
          f.fault? r.range opening headers = none) := by
  unfold deliver
  cases ht : f.queue.take? id with
  | none => exact .inl ⟨rfl, rfl⟩
  | some x =>
    obtain ⟨r, queue⟩ := x
    refine .inr ⟨r, queue, rfl, ?_⟩
    dsimp only
    cases ha : f.anchors.get? (r.range.start - 1) with
    | none => exact .inl ⟨f.mismatches, rfl, _, rfl⟩
    | some opening =>
      dsimp only
      cases hf : f.fault? r.range opening headers with
      | some fault =>
        have hf' : fault? { f with queue } r.range opening headers = some fault := hf
        simp only [hf']
        split
        · have hd := dispute_fst { f with queue } peer r.range fault.reason
          split
          · rename_i g error heq
            rw [heq] at hd
            exact .inl ⟨_, hd, error, rfl⟩
          · rename_i g heq
            rw [heq] at hd
            exact .inr (.inl ⟨_, true, by rw [show g = _ from hd]⟩)
        · exact .inr (.inl ⟨f.mismatches, true, rfl⟩)
      | none =>
        have hf' : fault? { f with queue } r.range opening headers = none := hf
        simp only [hf']
        split
        · exact .inr (.inl ⟨f.mismatches, false, rfl⟩)
        · rename_i hlen
          exact .inr (.inr ⟨rfl, Decidable.not_not.mp hlen, opening, rfl, hf⟩)

/-- What a fill holds between two calls, of the headers that it was sent. -/
structure Filling (engine : Engine) (origin : Header) (skeleton sent : List Header)
    (start stop : Nat) (f : HeaderFill) : Prop where
  engine_eq : f.engine = engine
  anchors_eq : f.anchors = (origin :: skeleton).map fun h => (h.height, h)
  custody : ∃ taken, Bench.Balanced start stop ⟨f.queue, taken⟩ ∧
    Bench.Undivided (gaps origin.height skeleton) ⟨f.queue, taken⟩
  next : f.queue.nextRelease = start + f.released.length
  backed : Backed engine origin skeleton sent
    (Positioned.numbered start f.released ++ f.queue.delivered)

section Steps

variable {engine : Engine} {origin : Header} {skeleton sent : List Header} {start stop : Nat}
  {f : HeaderFill}

theorem Filling.mono {more : List Header} (h : Filling engine origin skeleton sent start stop f)
    (hsub : ∀ g ∈ sent, g ∈ more) : Filling engine origin skeleton more start stop f :=
  ⟨h.engine_eq, h.anchors_eq, h.custody, h.next, h.backed.mono hsub⟩

/-- Moving work about does not touch the headers held. -/
theorem Filling.requeue (h : Filling engine origin skeleton sent start stop f)
    {queue : Queue Header} (custody : ∃ taken, Bench.Balanced start stop ⟨queue, taken⟩ ∧
      Bench.Undivided (gaps origin.height skeleton) ⟨queue, taken⟩)
    (keeps : queue.delivered = f.queue.delivered ∧ queue.nextRelease = f.queue.nextRelease)
    (mismatches : List PeerId) :
    Filling engine origin skeleton sent start stop { f with queue, mismatches } :=
  ⟨h.engine_eq, h.anchors_eq, custody, keeps.2.trans h.next, by rw [keeps.1]; exact h.backed⟩

theorem filling_reserve (h : Filling engine origin skeleton sent start stop f) {peer : PeerId}
    {capacity : Nat} {live : List PeerId} {a : Assignment} {g : HeaderFill}
    (hr : f.reserve peer capacity live = some (a, g)) :
    Filling engine origin skeleton sent start stop g := by
  obtain ⟨id, range, queue, handed, -, rfl⟩ := reserve_eq_some hr
  obtain ⟨taken, balanced, undivided⟩ := h.custody
  refine h.requeue ⟨taken, Bench.balanced_reserve balanced handed,
    Bench.undivided_reserve undivided handed⟩ ?_ f.mismatches
  obtain ⟨batch, failedBy, -, -, -, -, -, rfl⟩ := Queue.reserve_eq_some handed
  exact ⟨rfl, rfl⟩

theorem filling_fail (h : Filling engine origin skeleton sent start stop f) (id : RequestId) :
    Filling engine origin skeleton sent start stop (f.fail id).2 := by
  unfold fail
  cases hf : f.queue.fail? id with
  | none => exact h
  | some x =>
    obtain ⟨r, queue⟩ := x
    obtain ⟨taken, balanced, undivided⟩ := h.custody
    exact h.requeue ⟨taken, Bench.balanced_fail balanced hf, Bench.undivided_fail undivided hf⟩
      (Queue.fail?_keeps hf) f.mismatches

theorem filling_failPeer (h : Filling engine origin skeleton sent start stop f) (peer : PeerId) :
    Filling engine origin skeleton sent start stop (f.failPeer peer).2 := by
  obtain ⟨taken, balanced, undivided⟩ := h.custody
  exact h.requeue ⟨taken, Bench.balanced_failPeer balanced peer,
    Bench.undivided_failPeer undivided peer⟩ (Queue.failPeer_keeps ..) f.mismatches

theorem filling_collect (h : Filling engine origin skeleton sent start stop f) :
    Filling engine origin skeleton sent start stop f.collect := by
  obtain ⟨taken, balanced, undivided⟩ := h.custody
  obtain ⟨hnext, hperm⟩ := Queue.release_perm f.queue.delivered.length
    f.queue.nextRelease balanced.nodup_delivered
  refine ⟨h.engine_eq, h.anchors_eq, ⟨taken, Bench.balanced_takeReady balanced,
    Bench.undivided_takeReady undivided⟩, ?_, h.backed.perm ?_⟩
  · simp only [collect, Queue.takeReady, List.length_append]
    exact hnext.trans (by rw [h.next, Nat.add_assoc])
  · simp only [collect, Queue.takeReady, Positioned.numbered_append, List.append_assoc, ← h.next]
    exact hperm.append_left _

theorem filling_deliver (ascending : (origin :: skeleton).Pairwise (·.height < ·.height))
    (h : Filling engine origin skeleton sent start stop f) (id : RequestId) (peer : PeerId)
    (headers : List Header) (hsent : ∀ g ∈ headers, g ∈ sent) :
    Filling engine origin skeleton sent start stop (f.deliver id peer headers).1 := by
  rcases f.deliver_cases id peer headers with
    ⟨-, heq⟩ | ⟨r, queue, ht, ⟨mismatches, heq, -⟩ | ⟨mismatches, atFault, heq⟩ |
      ⟨heq, whole, hfill⟩⟩
  · rwa [heq]
  all_goals
    obtain ⟨taken, balanced, undivided⟩ := h.custody
    have balanced := Bench.balanced_take balanced ht
    have undivided := Bench.undivided_take undivided ht
    obtain ⟨-, rfl⟩ := Queue.take?_eq_some.mp ht
    rw [heq]
  -- a request that ends the fetch stays taken
  · exact h.requeue ⟨_, balanced, undivided⟩ ⟨rfl, rfl⟩ mismatches
  · have keeps := Queue.complete_keeps
      { f.queue with inFlight := f.queue.inFlight.filter (·.1 != id) } r [] atFault
    rw [List.take_nil] at keeps
    exact h.requeue ⟨taken, Bench.balanced_complete balanced [] atFault,
      Bench.undivided_complete undivided (.inl rfl) atFault⟩ keeps mismatches
  · obtain ⟨opening, hopening, hfault⟩ := hfill
    obtain ⟨hfirst, hlast⟩ := faultless hfault
    rw [h.engine_eq] at hfirst
    rw [h.anchors_eq, get?_anchors ascending] at hopening
    have hr : r.range ∈ gaps origin.height skeleton :=
      undivided.lots _ (Bench.mem_lots.mpr (.inr ⟨(id, r), by simp, rfl⟩))
    have run : Backed engine origin skeleton sent
        (Positioned.numbered r.range.start headers) := by
      refine .ofRun ascending hr hopening.1 hfirst whole (fun s hs hheight => ?_) hsent
      have hget := (get?_anchors ascending).mpr ⟨List.mem_cons_of_mem _ hs, hheight⟩
      rw [hlast whole, h.anchors_eq, hget, Option.map_some]
    have keeps := Queue.complete_keeps
      { f.queue with inFlight := f.queue.inFlight.filter (·.1 != id) } r headers false
    rw [← whole, List.take_length] at keeps
    have hperm := Positioned.insertAll_perm headers (m := f.queue.delivered)
      fun i hi hs => (balanced.free hi (whole ▸ hs)).1
    refine filling_collect ⟨h.engine_eq, h.anchors_eq, ⟨taken, Bench.balanced_complete balanced
      headers false, Bench.undivided_complete undivided (.inr whole) false⟩,
      keeps.2.trans h.next, (run.append h.backed).perm ?_⟩
    simp only [keeps.1]
    exact (List.perm_append_comm_assoc _ _ _).trans (hperm.symm.append_left _)

theorem filling_start_settled (sorted : (origin :: skeleton).Pairwise (·.height ≤ ·.height))
    (session : Nat) (master : PeerId) (limit : Nat)
    (tiles : Tiles start (gaps origin.height skeleton) stop)
    (nonempty : gaps origin.height skeleton = [] → start = 0) :
    Filling engine (settle origin skeleton).1 (settle origin skeleton).2 sent start stop
      (.start session origin skeleton master engine limit) := by
  refine ⟨rfl, foldl_insert_settle sorted [] (by simp), ⟨[], (Queue.Opens.ranges session false tiles
    nonempty).balanced, rfl, fun r hr => ?_⟩, ?_, .nil⟩
  · simp only [Bench.lots, HeaderFill.start, Queue.ofRanges, requestRanges, List.map_nil,
      List.append_nil] at hr
    have hpending := pendingRanges_ofRanges Header tiles session false
    exact gaps_settle sorted ▸ hpending.mem_iff.mp hr
  · exact tiles.start_eq nonempty

theorem filling_start (ascending : (origin :: skeleton).Pairwise (·.height < ·.height))
    (session : Nat) (master : PeerId) (limit : Nat)
    (tiles : Tiles start (gaps origin.height skeleton) stop)
    (nonempty : gaps origin.height skeleton = [] → start = 0) :
    Filling engine origin skeleton sent start stop
      (.start session origin skeleton master engine limit) := by
  have h : Filling engine (settle origin skeleton).1 (settle origin skeleton).2 sent start stop
      (.start session origin skeleton master engine limit) :=
    filling_start_settled (ascending.imp Nat.le_of_lt) session master limit tiles nonempty
  rwa [settle_of_ascending ascending] at h

/-- There is nothing to fill between an origin and nothing. -/
theorem isDone_start_nil (session : Nat) (origin : Header) (master : PeerId) (engine : Engine)
    (limit : Nat) : (HeaderFill.start session origin [] master engine limit).isDone := rfl

theorem Filling.nodup (h : Filling engine origin skeleton sent start stop f) :
    ((Positioned.numbered start f.released ++ f.queue.delivered).map Prod.fst).Nodup := by
  obtain ⟨taken, balanced, -⟩ := h.custody
  have hlen : f.queue.nextRelease - start = f.released.length := by
    rw [h.next, Nat.add_sub_cancel_left]
  have hnodup := balanced.nodup_out
  rwa [hlen, ← Positioned.map_fst_numbered, ← List.map_append] at hnodup

theorem Filling.released_eq_nil (h : Filling engine origin [] sent start stop f) :
    f.released = [] := by
  cases hr : f.released with
  | nil => rfl
  | cons g rest =>
    obtain ⟨r, hgap, -⟩ := h.backed.within (start, g) (by simp [hr, Positioned.numbered])
    simp [gaps] at hgap

theorem Filling.length_of_done (h : Filling engine origin skeleton sent start stop f)
    (hle : start ≤ stop) (done : f.isDone) : start + f.released.length = stop := by
  obtain ⟨taken, balanced, -⟩ := h.custody
  have hnext := balanced.next_le hle
  have hstop : f.queue.stop = stop := balanced.stop_eq
  have hdone := f.queue.isDone_iff.mp done
  have hreleased := h.next
  simp only at hnext
  omega

theorem filling_apply {σ : Type} (ascending : (origin :: skeleton).Pairwise (·.height < ·.height))
    {d : Desk σ HeaderFill} (h : Filling engine origin skeleton sent start stop d.task) (m : Move)
    (hsent : ∀ g ∈ receivedHeaders [m], g ∈ sent) :
    Filling engine origin skeleton sent start stop (d.apply m).task := by
  cases m with
  | reserve peer capacity live =>
    simp only [Desk.apply]
    split
    · exact h
    · rename_i hr
      exact filling_reserve h hr
  | deliver id peer payload =>
    have hstep := filling_deliver ascending h id peer payload.headersOf
      fun g hg => hsent g (by simpa [receivedHeaders, received, Move.payload?] using hg)
    simp only [Desk.apply, Receiver.deliver]
    split <;> rename_i heq <;> obtain ⟨rfl, -⟩ := Prod.mk.injEq .. |>.mp heq <;> exact hstep
  | fail id => exact filling_fail h id
  | failPeer peer => exact filling_failPeer h peer

theorem filling_run {σ : Type} (ascending : (origin :: skeleton).Pairwise (·.height < ·.height))
    {d : Desk σ HeaderFill} {moves : List Move}
    (h : Filling engine origin skeleton (receivedHeaders moves) start stop d.task) :
    Filling engine origin skeleton (receivedHeaders moves) start stop (d.run moves).task := by
  refine Desk.run_invariant (P := fun d => Filling engine origin skeleton (receivedHeaders moves)
    start stop d.task) h fun d m hm hd => filling_apply ascending hd m fun g hg => ?_
  simp only [receivedHeaders, received, List.mem_flatMap, List.mem_filterMap,
    List.mem_singleton] at hg ⊢
  obtain ⟨payload, ⟨m', rfl, hp⟩, hg⟩ := hg
  exact ⟨payload, ⟨m', hm, hp⟩, hg⟩

end Steps

section Run

variable {origin : Header} {skeleton : List Header}

/-- A fill that is done has released a header at the height of the last one of the skeleton. -/
theorem Filling.last_of_done {engine : Engine} {sent : List Header} {f : HeaderFill}
    (ascending : (origin :: skeleton).Pairwise (·.height < ·.height))
    (h : Filling engine origin skeleton sent (origin.height + 1)
      ((skeleton.getLastD origin).height + 1) f) (done : f.isDone) {last : Header}
    (hlast : skeleton.getLast? = some last) :
    ∃ g, f.released.getLast? = some g ∧ g.height = last.height := by
  obtain ⟨taken, balanced, -⟩ := h.custody
  have hmem := List.mem_of_getLast? hlast
  have hlt := (List.pairwise_cons.mp ascending).1 last hmem
  have hstop : skeleton.getLastD origin = last := by
    rw [List.getLastD_eq_getLast?, hlast, Option.getD_some]
  have hle := balanced.next_le (Nat.succ_le_succ (hstop ▸ Nat.le_of_lt hlt))
  have hge : f.queue.stop ≤ f.queue.nextRelease := by
    simpa [isDone, Queue.isDone] using done
  have hnext := h.next
  rw [show f.queue.stop = _ from balanced.stop_eq] at hge
  rw [hstop] at hle hge
  simp only at hle
  have hheights := congrArg List.getLast? h.backed.heights_eq
  rw [List.getLast?_map, List.getLast?_range', if_neg (by omega),
    Option.map_eq_some_iff] at hheights
  obtain ⟨g, hg, hheight⟩ := hheights
  exact ⟨g, hg, by omega⟩

/-- The gaps of a skeleton are filled by headers that continue the origin's chain without a break
and meet the skeleton wherever it has a header, whoever sent them and in whatever order. -/
theorem released_continue_the_chain {σ : Type}
    (ascending : (origin :: skeleton).Pairwise (·.height < ·.height)) {session : Nat}
    {master : PeerId} {engine : Engine} {limit : Nat} {d : Desk σ HeaderFill}
    (opened : d.task = start session origin skeleton master engine limit) (moves : List Move) :
    let f := (d.run moves).task
    f.released.map Header.height = List.range' (origin.height + 1) f.released.length ∧
      (origin :: f.released).IsChain (fun parent h => h.parentHash = parent.hash) ∧
      (∀ h ∈ f.released, ∀ s ∈ skeleton, h.height = s.height → h.hash = s.hash) ∧
      (f.isDone → f.released.getLast?.map (fun h => (h.height, h.hash)) =
        skeleton.getLast?.map fun h => (h.height, h.hash)) ∧
      (Set.InjOn keccak (Header.encode '' {h | h ∈ skeleton ∨ h ∈ receivedHeaders moves}) →
        (origin :: f.released).IsChain (fun parent h => engine.verifyHeader h parent = .ok ()) ∧
          (f.isDone → f.released.getLast? = skeleton.getLast?)) := by
  intro f
  cases hs : skeleton.getLast? with
  | none =>
    -- without a skeleton there is no gap, and nothing is ever held
    obtain rfl := List.getLast?_eq_none_iff.mp hs
    have h : Filling engine origin [] (receivedHeaders moves) 0 0 f :=
      filling_run ascending
        (opened ▸ filling_start ascending session master limit rfl fun _ => rfl)
    have hempty : f.released = [] := by
      cases hr : f.released with
      | nil => rfl
      | cons g rest =>
        obtain ⟨r, hgap, -⟩ := h.backed.within (0, g) (by simp [hr, Positioned.numbered])
        simp [gaps] at hgap
    simp [hempty]
  | some last =>
    have hne : gaps origin.height skeleton ≠ [] := by
      cases skeleton with
      | nil => simp at hs
      | cons s rest => simp [gaps]
    have h : Filling engine origin skeleton (receivedHeaders moves) (origin.height + 1)
        ((skeleton.getLastD origin).height + 1) f :=
      filling_run ascending (opened ▸
        filling_start ascending session master limit (tiles_gaps ascending) fun hn => absurd hn hne)
    have hlast := List.mem_of_getLast? hs
    have done : f.isDone → ∃ g, f.released.getLast? = some g ∧ g.height = last.height ∧
        g.hash = last.hash := by
      intro hdone
      obtain ⟨g, hg, hheight⟩ := h.last_of_done ascending hdone hs
      exact ⟨g, hg, hheight, h.backed.hash_eq (List.mem_of_getLast? hg) hlast hheight⟩
    refine ⟨h.backed.heights_eq, h.backed.hash_chain ascending h.nodup,
      fun g hg s hs => h.backed.hash_eq hg hs, fun hdone => ?_, fun collisionFree =>
      ⟨h.backed.chain ascending h.nodup collisionFree, fun hdone => ?_⟩⟩
    · obtain ⟨g, hg, hheight, hhash⟩ := done hdone
      rw [hg, Option.map_some, Option.map_some, hheight, hhash]
    · obtain ⟨g, hg, hheight, hhash⟩ := done hdone
      have hsent := h.backed.sent_of_released (List.mem_of_getLast? hg)
      have hsame := collisionFree ⟨g, .inr hsent, rfl⟩ ⟨last, .inl hlast, rfl⟩ hhash
      rw [hg, Header.encode_injective hsame]

theorem released_continue_the_chain_retried :
    let origin : Header := {}
    let a : Header := { number := 1, timestamp := 1, parentHash :=
      0x700f4df9a77094c21ce453225cefb24eadb12af52492e88dbac6851d9c99946e#256 }
    let moves : List Move := [.reserve 1 8 [1, 2], .deliver ⟨7, 0⟩ 1 (.headers []),
      .reserve 2 8 [1, 2], .deliver ⟨7, 1⟩ 2 (.headers [a])]
    let d : Desk Unit HeaderFill := ⟨start 7 origin [a] 1 (.ethash 0) 3, ⟨{}, ()⟩, none⟩
    let f := (d.run moves).task
    f.isDone = true ∧ f.released.getLast? = some a ∧
      (origin :: f.released).IsChain fun parent h =>
        Engine.verifyHeader (.ethash 0) h parent = .ok () := by
  intro origin a moves d f
  have done : f.isDone = true := by decide +kernel
  have collisionFree :
      Set.InjOn keccak (Header.encode '' {h | h ∈ [a] ∨ h ∈ receivedHeaders moves}) := by
    have hsent : receivedHeaders moves = [a] := rfl
    have hmem : ∀ h, h ∈ [a] ∨ h ∈ receivedHeaders moves → h = a := by simp [hsent]
    rintro - ⟨g, hg, rfl⟩ - ⟨h, hh, rfl⟩ -
    rw [hmem g hg, hmem h hh]
  obtain ⟨-, -, -, -, linked⟩ := released_continue_the_chain (d := d) (by decide) rfl moves
  obtain ⟨chain, last⟩ := linked collisionFree
  exact ⟨done, last done, chain⟩

end Run

end HeaderFill
end ChainSync
