import ChainSync.Proofs.Fetch.BlockData
import ChainSync.Proofs.Headers.Fill
set_option autoImplicit false

/-!
What a task says of the requests it waits for: it waits for one only since it made it, and no longer
once it was answered or lost.
-/

namespace ChainSync

namespace Fetch

variable {σ τ : Type}

/-- The requests a task waits for, by their ids. -/
class Asking (τ : Type) where
  /-- Who was asked, and for what. -/
  asks : τ → RequestId → Option (PeerId × Request)
  /-- How many requests were made. -/
  attempts : τ → Nat

section Forgets

variable [Workload τ] [Asking τ]

/-- No request is made, and none comes to stand for another. -/
structure Forgets (t t' : τ) : Prop where
  category : Workload.category t' = Workload.category t
  attempts : Asking.attempts t' = Asking.attempts t
  asks : ∀ {id x}, Asking.asks t' id = some x → Asking.asks t id = some x

theorem Forgets.refl (t : τ) : Forgets t t := ⟨rfl, rfl, id⟩

theorem Forgets.trans {t t' t'' : τ} (h : Forgets t t') (h' : Forgets t' t'') : Forgets t t'' :=
  ⟨h'.category.trans h.category, h'.attempts.trans h.attempts, fun asked => h.asks (h'.asks asked)⟩

/-- One request more is made, by a fresh id. -/
structure Makes (peer : PeerId) (a : Assignment) (t t' : τ) : Prop where
  category : Workload.category t' = Workload.category t
  fresh : a.id.attempt = Asking.attempts t
  attempts : Asking.attempts t' = Asking.attempts t + 1
  asks : ∀ {id x}, Asking.asks t' id = some x →
    Asking.asks t id = some x ∨ id = a.id ∧ x = (peer, a.request)

end Forgets

/-- The requests of a task are those that it assigned and that were not answered or lost. -/
class Accountable (σ τ : Type) [Workload τ] [Receiver σ τ] [Asking τ] : Prop where
  reserve : ∀ {t t' : τ} {peer : PeerId} {capacity : Nat} {live : List PeerId} {a : Assignment},
    Workload.reserve t peer capacity live = some (a, t') → Makes peer a t t'
  fail : ∀ (t : τ) (id : RequestId),
    Forgets t (Workload.fail t id).2 ∧ Asking.asks (Workload.fail t id).2 id = none
  failPeer : ∀ (t : τ) (peer : PeerId), Forgets t (Workload.failPeer t peer).2
  deliver : ∀ (t : τ) (board : Board σ) (id : RequestId) (peer : PeerId) (payload : Payload),
    Forgets t (Receiver.deliver t board id peer payload).1 ∧
      Asking.asks (Receiver.deliver t board id peer payload).1 id = none
  /-- Nobody is blamed for an answer that is not waited for. -/
  stale : ∀ (t : τ) (board : Board σ) (id : RequestId) (peer : PeerId) (payload : Payload),
    Asking.asks t id = none →
      ∃ items, (Receiver.deliver t board id peer payload).2.2 = .ok (.stale items)

namespace Queue

variable {α : Type} {q q' : Queue α} {id : RequestId}

/-- The requests in flight, if this is what is asked for a range. -/
def asks (q : Queue α) (request : Range → Request) (id : RequestId) : Option (PeerId × Request) :=
  (q.inFlight.lookup id).map fun r => (r.peer, request r.range)

/-- Requests may have left the queue. -/
structure Sheds (q q' : Queue α) : Prop where
  nextAttempt : q'.nextAttempt = q.nextAttempt
  inFlight : ∀ {id r}, q'.inFlight.lookup id = some r → q.inFlight.lookup id = some r

theorem Sheds.asks (h : q.Sheds q') {request : Range → Request} {x : PeerId × Request}
    (asked : q'.asks request id = some x) : q.asks request id = some x := by
  obtain ⟨r, hr, rfl⟩ := Option.map_eq_some_iff.mp asked
  exact Option.map_eq_some_iff.mpr ⟨r, h.inFlight hr, rfl⟩

theorem inFlight_complete (q : Queue α) (r : InFlight) (items : List α) (atFault : Bool) :
    (q.complete r items atFault).inFlight = q.inFlight ∧
      (q.complete r items atFault).nextAttempt = q.nextAttempt := by
  obtain ⟨failedBy, heq⟩ := q.complete_eq r items atFault
  rw [heq, requeue_eq]
  exact ⟨rfl, rfl⟩

theorem sheds_take {r : InFlight} (taken : q.take? id = some (r, q')) :
    q.Sheds q' ∧ q'.inFlight.lookup id = none := by
  obtain ⟨-, rfl⟩ := take?_eq_some.mp taken
  exact ⟨⟨rfl, fun h => Keyed.lookup_of_filter h⟩, Keyed.lookup_filter_self _ _⟩

/-- A request that was taken out and completed is forgotten, whatever leaves the queue then. -/
theorem sheds_completed {r : InFlight} (taken : q.take? id = some (r, q')) (items : List α)
    (atFault : Bool) {q'' : Queue α}
    (same : q''.inFlight = (q'.complete r items atFault).inFlight ∧
      q''.nextAttempt = (q'.complete r items atFault).nextAttempt) :
    q.Sheds q'' ∧ q''.inFlight.lookup id = none := by
  obtain ⟨sheds, gone⟩ := sheds_take taken
  obtain ⟨hflight, hnext⟩ := q'.inFlight_complete r items atFault
  rw [hflight, hnext] at same
  refine ⟨⟨same.2.trans sheds.nextAttempt, fun h => sheds.inFlight ?_⟩, ?_⟩
  · rwa [same.1] at h
  · rwa [same.1]

theorem sheds_fail {r : InFlight} (failed : q.fail? id = some (r, q')) :
    q.Sheds q' ∧ q'.inFlight.lookup id = none := by
  rw [fail?_eq, Option.map_eq_some_iff] at failed
  obtain ⟨⟨r, taken⟩, ht, heq⟩ := failed
  cases heq
  exact sheds_completed ht [] true ⟨rfl, rfl⟩

theorem sheds_failPeer (q : Queue α) (peer : PeerId) : q.Sheds (q.failPeer peer).2 :=
  failPeer_induction (P := fun q' => q.Sheds q') peer ⟨rfl, id⟩ fun h hf =>
    ⟨(sheds_fail hf).1.nextAttempt.trans h.nextAttempt,
      fun found => h.inFlight ((sheds_fail hf).1.inFlight found)⟩

theorem take?_of_unasked {request : Range → Request} (unasked : q.asks request id = none) :
    q.take? id = none := by
  simpa [asks, take?] using unasked

theorem lookup_none_of_fail (failed : q.fail? id = none) : q.inFlight.lookup id = none := by
  simpa [fail?, take?] using failed

theorem asks_reserve {peer : PeerId} {capacity : Nat} {live : List PeerId} {range : Range}
    (reserved : q.reserve peer capacity live = some (id, range, q')) :
    id.attempt = q.nextAttempt ∧ q'.nextAttempt = q.nextAttempt + 1 ∧
      ∀ {request : Range → Request} {id' x}, q'.asks request id' = some x →
        q.asks request id' = some x ∨ id' = id ∧ x = (peer, request range) := by
  obtain ⟨batch, failedBy, -, -, -, -, rfl, rfl⟩ := reserve_eq_some reserved
  refine ⟨rfl, rfl, fun {request id' x} asked => ?_⟩
  obtain ⟨r, hr, rfl⟩ := Option.map_eq_some_iff.mp asked
  rw [List.lookup_append, Option.or_eq_some_iff] at hr
  rcases hr with hr | ⟨-, hr⟩
  · exact .inl (Option.map_eq_some_iff.mpr ⟨r, hr, rfl⟩)
  · obtain ⟨rfl, rfl⟩ : id' = ⟨q.session, q.nextAttempt⟩ ∧ r = ⟨peer, range, failedBy⟩ := by
      simpa using Keyed.mem_of_lookup hr
    exact .inr ⟨rfl, rfl⟩

end Queue

namespace BlockFetch

variable {δ : Type} [BlockData δ]

/-- What is asked for a range of positions. -/
def requestFor (f : BlockFetch δ) (range : Range) : Request :=
  BlockData.request δ (range.positions.filterMap fun p => (f.headerAt? p).map Header.hash)

instance : Asking (BlockFetch δ) where
  asks f := f.queue.asks f.requestFor
  attempts f := f.queue.nextAttempt

/-- A fetch of the same data, with fewer requests in flight. -/
theorem forgets {f g : BlockFetch δ} (headers : g.headers = f.headers)
    (wanted : g.wanted = f.wanted) (sheds : f.queue.Sheds g.queue) : Forgets f g := by
  have same : g.requestFor = f.requestFor := by
    funext range
    simp only [requestFor, headerAt?, headers, wanted]
  refine ⟨rfl, sheds.nextAttempt, fun {id x} asked => ?_⟩
  change g.queue.asks g.requestFor id = some x at asked
  rw [same] at asked
  exact sheds.asks asked

theorem deliver_keeps (f : BlockFetch δ) (id : RequestId) (peer : PeerId) (response : List δ) :
    (f.deliver id peer response).1.headers = f.headers ∧
      (f.deliver id peer response).1.wanted = f.wanted := by
  obtain ⟨headers, wanted, -⟩ :=
    foldl_place_keeps (f.takeIn id peer response).1 (f.takeIn id peer response).2
  have same : (f.takeIn id peer response).1.headers = f.headers ∧
      (f.takeIn id peer response).1.wanted = f.wanted := by
    unfold takeIn
    split <;> exact ⟨rfl, rfl⟩
  rw [deliver_fst]
  exact ⟨headers.trans same.1, wanted.trans same.2⟩

theorem sheds_deliver (f : BlockFetch δ) (id : RequestId) (peer : PeerId) (response : List δ) :
    f.queue.Sheds (f.deliver id peer response).1.queue ∧
      (f.deliver id peer response).1.queue.inFlight.lookup id = none := by
  rw [deliver_fst, (foldl_place_keeps ..).2.2]
  unfold takeIn
  split
  · rename_i unasked
    exact ⟨⟨rfl, fun found => found⟩, by simpa [Queue.take?] using unasked⟩
  · rename_i r taken ht
    exact Queue.sheds_completed ht _ _ ⟨rfl, rfl⟩

theorem forgets_deliver (f : BlockFetch δ) (id : RequestId) (peer : PeerId) (response : List δ) :
    Forgets f (f.deliver id peer response).1 ∧
      Asking.asks (f.deliver id peer response).1 id = none := by
  obtain ⟨headers, wanted⟩ := f.deliver_keeps id peer response
  obtain ⟨sheds, gone⟩ := f.sheds_deliver id peer response
  exact ⟨forgets headers wanted sheds, Option.map_eq_none_iff.mpr gone⟩

instance (σ : Type) : Accountable σ (BlockFetch δ) where
  reserve h := by
    obtain ⟨id, range, queue, handed, rfl, rfl⟩ := reserve_eq_some h
    obtain ⟨fresh, next, asked⟩ := Queue.asks_reserve handed
    exact ⟨rfl, fresh, next, asked⟩
  fail f id := by
    simp only [Workload.fail, fail]
    split
    · rename_i hf
      obtain ⟨sheds, gone⟩ := Queue.sheds_fail hf
      exact ⟨forgets rfl rfl sheds, Option.map_eq_none_iff.mpr gone⟩
    · rename_i hf
      exact ⟨.refl f, Option.map_eq_none_iff.mpr (Queue.lookup_none_of_fail hf)⟩
  failPeer f peer := forgets rfl rfl (f.queue.sheds_failPeer peer)
  deliver f _ id peer payload := forgets_deliver f id peer _
  stale f _ id peer payload unasked := by
    have gone := Queue.take?_of_unasked unasked
    refine ⟨(BlockData.ofPayload payload : List δ).length, ?_⟩
    simp only [Receiver.deliver, deliver, gone]

end BlockFetch
end Fetch

open Fetch

namespace HeaderFill

instance : Asking HeaderFill where
  asks f := f.queue.asks fun range => .headers (.range range.start range.count)
  attempts f := f.queue.nextAttempt

theorem forgets {f g : HeaderFill} (sheds : f.queue.Sheds g.queue) : Forgets f g :=
  ⟨rfl, sheds.nextAttempt, sheds.asks⟩

theorem forgets_deliver (f : HeaderFill) (id : RequestId) (peer : PeerId) (headers : List Header) :
    Forgets f (f.deliver id peer headers).1 ∧
      Asking.asks (f.deliver id peer headers).1 id = none := by
  have closed {g : HeaderFill} (h : f.queue.Sheds g.queue ∧ g.queue.inFlight.lookup id = none) :
      Forgets f g ∧ Asking.asks g id = none := ⟨forgets h.1, Option.map_eq_none_iff.mpr h.2⟩
  rcases f.deliver_cases id peer headers with
    ⟨unasked, heq⟩ | ⟨r, queue, ht, ⟨mismatches, heq, -⟩ | ⟨mismatches, atFault, heq⟩ |
      ⟨heq, -⟩⟩
  all_goals rw [heq]
  · exact closed ⟨⟨rfl, fun h => h⟩, by simpa [Queue.take?] using unasked⟩
  · exact closed (Queue.sheds_take ht)
  · exact closed (Queue.sheds_completed ht [] atFault ⟨rfl, rfl⟩)
  · exact closed (Queue.sheds_completed ht headers false ⟨rfl, rfl⟩)

instance (σ : Type) : Accountable σ HeaderFill where
  reserve h := by
    obtain ⟨id, range, queue, handed, rfl, rfl⟩ := reserve_eq_some h
    obtain ⟨fresh, next, asked⟩ := Queue.asks_reserve handed
    exact ⟨rfl, fresh, next, asked⟩
  fail f id := by
    simp only [Workload.fail, fail]
    split
    · rename_i hf
      obtain ⟨sheds, gone⟩ := Queue.sheds_fail hf
      exact ⟨forgets sheds, Option.map_eq_none_iff.mpr gone⟩
    · rename_i hf
      exact ⟨.refl f, Option.map_eq_none_iff.mpr (Queue.lookup_none_of_fail hf)⟩
  failPeer f peer := forgets (f.queue.sheds_failPeer peer)
  deliver f _ id peer payload := forgets_deliver f id peer _
  stale f _ id peer payload unasked := by
    have gone := Queue.take?_of_unasked unasked
    refine ⟨payload.headersOf.length, ?_⟩
    simp only [Receiver.deliver, deliver, gone]

end HeaderFill

end ChainSync
