import ChainSync.Proofs.Fetch.Custody
set_option autoImplicit false

/-!
Queues whose work is handed out and completed in the pieces it came in, each wholly or not at all.
-/

namespace ChainSync.Fetch

variable {α : Type}

namespace Bench

/-- All that waits, is in flight or under completion are some of the given ranges, uncut. -/
structure Undivided (ranges : List Range) (b : Bench α) : Prop where
  whole : b.queue.splittable = false
  lots : ∀ r ∈ b.lots, r ∈ ranges

variable {ranges : List Range} {b : Bench α}

theorem mem_lots {r : Range} : r ∈ b.lots ↔
    (∃ e ∈ b.queue.pending, (⟨e.1, e.2.count⟩ : Range) = r) ∨
      ∃ e ∈ b.queue.inFlight ++ b.taken, e.2.range = r := by
  simp only [Bench.lots, pendingRanges, requestRanges, List.mem_append, List.mem_map, or_assoc,
    or_and_right, exists_or]

theorem undivided_reserve (h : b.Undivided ranges) {peer : PeerId} {capacity : Nat}
    {live : List PeerId} {id : RequestId} {range : Range} {queue : Queue α}
    (hr : b.queue.reserve peer capacity live = some (id, range, queue)) :
    Undivided ranges { b with queue } := by
  obtain ⟨batch, failedBy, hmem, -, -, hwhole, rfl, rfl⟩ := Queue.reserve_eq_some hr
  have hcount := hwhole h.whole
  have hrange : range ∈ ranges := h.lots range (mem_lots.mpr (.inl ⟨_, hmem, by rw [← hcount]⟩))
  refine ⟨h.whole, fun r hr => ?_⟩
  rw [mem_lots] at hr
  simp only [hcount, Nat.lt_irrefl, if_false] at hr
  rcases hr with ⟨e, he, rfl⟩ | ⟨e, he, rfl⟩
  · exact h.lots _ (mem_lots.mpr (.inl ⟨e, List.mem_of_mem_filter he, rfl⟩))
  · simp only [List.mem_append, List.mem_singleton] at he
    rcases he with (he | rfl) | he
    · exact h.lots _ (mem_lots.mpr (.inr ⟨e, by simp [he], rfl⟩))
    · exact hrange
    · exact h.lots _ (mem_lots.mpr (.inr ⟨e, by simp [he], rfl⟩))

theorem undivided_take (h : b.Undivided ranges) {id : RequestId} {r : InFlight} {queue : Queue α}
    (ht : b.queue.take? id = some (r, queue)) :
    Undivided ranges ⟨queue, (id, r) :: b.taken⟩ := by
  obtain ⟨hmem, rfl⟩ := Queue.take?_eq_some.mp ht
  have hmem := Keyed.mem_of_lookup hmem
  refine ⟨h.whole, fun s hs => h.lots s ?_⟩
  rw [mem_lots] at hs ⊢
  rcases hs with hs | ⟨e, he, rfl⟩
  · exact .inl hs
  · simp only [List.mem_append, List.mem_filter, List.mem_cons] at he
    rcases he with ⟨he, -⟩ | rfl | he
    · exact .inr ⟨e, by simp [he], rfl⟩
    · exact .inr ⟨(id, r), by simp [hmem], rfl⟩
    · exact .inr ⟨e, by simp [he], rfl⟩

/-- Either nothing of the range is kept, and it waits again, or all of it is. -/
theorem undivided_complete {q : Queue α} {id : RequestId} {r : InFlight}
    {taken : List (RequestId × InFlight)} (h : Undivided ranges ⟨q, (id, r) :: taken⟩)
    {items : List α} (whole : items = [] ∨ items.length = r.range.count) (atFault : Bool) :
    Undivided ranges ⟨q.complete r items atFault, taken⟩ := by
  obtain ⟨failedBy, heq⟩ := q.complete_eq r items atFault
  have hr : r.range ∈ ranges := h.lots _ (mem_lots.mpr (.inr ⟨(id, r), by simp, rfl⟩))
  have hold : ∀ s ∈ Bench.lots (⟨q, taken⟩ : Bench α), s ∈ ranges := by
    intro s hs
    refine h.lots s (mem_lots.mpr ?_)
    rcases mem_lots.mp hs with hs | ⟨e, he, rfl⟩
    · exact .inl hs
    · simp only [List.mem_append] at he
      exact .inr ⟨e, by simp only [List.mem_append, List.mem_cons]; tauto, rfl⟩
  rw [heq, Queue.requeue_eq]
  refine ⟨h.whole, fun s hs => ?_⟩
  rcases whole with rfl | hlen
  · simp only [List.take_nil, List.length_nil, Nat.add_zero, Nat.sub_zero] at hs
    split at hs
    · exact hold s hs
    · rcases mem_lots.mp hs with ⟨e, he, rfl⟩ | hs
      · rcases Positioned.mem_of_mem_insert he with rfl | he
        · exact hr
        · exact hold _ (mem_lots.mpr (.inl ⟨e, he, rfl⟩))
      · exact hold s (mem_lots.mpr (.inr hs))
  · simp only [List.length_take, hlen, Nat.min_self, Nat.sub_self, if_true] at hs
    exact hold s hs

theorem undivided_fail (h : b.Undivided ranges) {id : RequestId} {r : InFlight} {queue : Queue α}
    (hf : b.queue.fail? id = some (r, queue)) : Undivided ranges { b with queue } := by
  rw [Queue.fail?_eq, Option.map_eq_some_iff] at hf
  obtain ⟨⟨r, q⟩, ht, heq⟩ := hf
  cases heq
  exact undivided_complete (undivided_take h ht) (.inl rfl) true

theorem undivided_failPeer (h : b.Undivided ranges) (peer : PeerId) :
    Undivided ranges { b with queue := (b.queue.failPeer peer).2 } :=
  Queue.failPeer_induction (P := fun queue => Undivided ranges { b with queue }) peer h
    fun h hf => undivided_fail h hf

theorem undivided_takeReady (h : b.Undivided ranges) :
    Undivided ranges { b with queue := b.queue.takeReady.2 } := ⟨h.whole, h.lots⟩

end Bench
end ChainSync.Fetch
