import Mathlib.Data.Finset.Insert
import ChainSync.Proofs.Fetch.Allotment
set_option autoImplicit false

/-!
What a queue notes of failures while it hands its batches out uncut. The batches may overlap, as
long as no two begin at the same position: what is noted for one then stays with it.
-/

namespace ChainSync.Fetch.Queue

variable {α : Type} {q q' : Queue α} {id : RequestId} {r : InFlight}

/-- All that waits or is asked for. -/
def batches (q : Queue α) : List Range := pendingRanges q.pending ++ requestRanges q.inFlight

/-- For each batch, the peers that failed it. -/
def notes (q : Queue α) : Multiset (Finset PeerId) :=
  ↑(q.pending.map (·.2.failedBy.toFinset) ++ q.inFlight.map (·.2.failedBy.toFinset))

/-- Batches are not cut, and told apart by where they begin. Nobody is asked for one that it is
noted for. -/
structure Apart (q : Queue α) : Prop where
  whole : q.splittable = false
  starts : (q.batches.map (·.start)).Nodup
  filled : ∀ b ∈ q.batches, 0 < b.count
  ids : (q.inFlight.map Prod.fst).Nodup
  issued : ∀ e ∈ q.inFlight, e.1.session = q.session ∧ e.1.attempt < q.nextAttempt
  fresh : ∀ e ∈ q.inFlight, e.2.peer ∉ e.2.failedBy

theorem map_start_batches (q : Queue α) :
    q.batches.map (·.start) = q.pending.map Prod.fst ++ q.inFlight.map (·.2.range.start) := by
  simp [batches, pendingRanges, requestRanges, Function.comp_def]

theorem Apart.nodup_pending (h : q.Apart) : (q.pending.map Prod.fst).Nodup := by
  have starts := h.starts
  rw [map_start_batches] at starts
  exact (List.nodup_append.mp starts).1

theorem reserve_uncut (whole : q.splittable = false) {peer : PeerId} {capacity : Nat}
    {live : List PeerId} {range : Range}
    (handed : q.reserve peer capacity live = some (id, range, q')) :
    ∃ batch, q.pending.find? (·.2.eligible peer live) = some (range.start, batch) ∧
      range.count = batch.count ∧ id = ⟨q.session, q.nextAttempt⟩ ∧
      q' = { q with
        nextAttempt := q.nextAttempt + 1
        pending := q.pending.erase range.start
        inFlight := q.inFlight ++ [(id, ⟨peer, range, (batch.retry peer).failedBy⟩)] } := by
  unfold reserve at handed
  split at handed
  · cases handed
  · rename_i start batch found
    simp only [whole, Bool.false_eq_true, false_and, if_false, Nat.lt_irrefl, Option.some.injEq,
      Prod.mk.injEq] at handed
    obtain ⟨rfl, rfl, rfl⟩ := handed
    exact ⟨batch, found, batch.count_retry peer, rfl, by rw [whole]⟩

/-- A batch that is handed out keeps its notes, or loses them all. -/
theorem apart_reserve (h : q.Apart) {peer : PeerId} {capacity : Nat} {live : List PeerId}
    {range : Range} (handed : q.reserve peer capacity live = some (id, range, q')) :
    q'.Apart ∧ ∃ batch others,
      q.pending.find? (·.2.eligible peer live) = some (range.start, batch) ∧
      q.notes = batch.failedBy.toFinset ::ₘ others ∧
      q'.notes = (batch.retry peer).failedBy.toFinset ::ₘ others := by
  obtain ⟨batch, found, count, rfl, rfl⟩ := reserve_uncut h.whole handed
  have mem := List.mem_of_find?_eq_some found
  have parts := Keyed.perm_cons_filter h.nodup_pending mem
  have moved : q.batches.Perm
      (pendingRanges (q.pending.erase range.start) ++ (requestRanges q.inFlight ++ [range])) := by
    have waiting := pendingRanges_erase h.nodup_pending mem
    rw [← count] at waiting
    refine (waiting.append_right _).trans ?_
    rw [← List.append_assoc]
    exact (List.perm_append_singleton range _).symm
  have same : (requestRanges q.inFlight ++ [range]) = requestRanges (q.inFlight ++
      [(⟨q.session, q.nextAttempt⟩, ⟨peer, range, (batch.retry peer).failedBy⟩)]) := by
    simp [requestRanges]
  rw [same] at moved
  refine ⟨⟨h.whole, (moved.map _).nodup_iff.mp h.starts,
    fun b hb => h.filled b (moved.mem_iff.mpr hb), ?_, ?_, ?_⟩, batch,
    ↑((q.pending.erase range.start).map (·.2.failedBy.toFinset) ++
      q.inFlight.map (·.2.failedBy.toFinset)), found, ?_, ?_⟩
  · rw [List.map_append, List.map_singleton]
    refine List.nodup_append.mpr ⟨h.ids, List.nodup_singleton _, ?_⟩
    rintro id known _ fresh rfl
    obtain rfl := List.mem_singleton.mp fresh
    obtain ⟨e, he, same⟩ := List.mem_map.mp known
    have issued := (h.issued e he).2
    rw [same] at issued
    exact Nat.lt_irrefl _ issued
  · intro e he
    rcases List.mem_append.mp he with he | he
    · exact ⟨(h.issued e he).1, Nat.lt_succ_of_lt (h.issued e he).2⟩
    · obtain rfl := List.mem_singleton.mp he
      exact ⟨rfl, Nat.lt_succ_self _⟩
  · intro e he
    rcases List.mem_append.mp he with he | he
    · exact h.fresh e he
    · obtain rfl := List.mem_singleton.mp he
      exact batch.not_mem_retry peer
  · rw [notes, Multiset.cons_coe, Multiset.coe_eq_coe]
    exact (parts.map _).append_right _
  · rw [notes, Multiset.cons_coe, Multiset.coe_eq_coe, List.map_append, ← List.append_assoc]
    exact List.perm_append_singleton _ _

/-- What is left of a queue when a request is taken out, and that there is room for its batch. -/
theorem apart_take (h : q.Apart) (taken : q.take? id = some (r, q')) :
    q'.Apart ∧ r.range.start ∉ q'.batches.map (·.start) ∧ 0 < r.range.count ∧
      r.peer ∉ r.failedBy ∧ q.notes = r.failedBy.toFinset ::ₘ q'.notes := by
  obtain ⟨found, rfl⟩ := take?_eq_some.mp taken
  have mem := Keyed.mem_of_lookup found
  have parts := Keyed.perm_cons_filter h.ids mem
  have split : q.batches.Perm (r.range ::
      batches { q with inFlight := q.inFlight.filter (·.1 != id) }) :=
    ((parts.map (·.2.range)).append_left _).trans List.perm_middle
  have starts := (split.map (·.start)).nodup_iff.mp h.starts
  rw [List.map_cons, List.nodup_cons] at starts
  have kept : ∀ e ∈ q.inFlight.filter (·.1 != id), e ∈ q.inFlight :=
    fun e he => List.mem_of_mem_filter he
  refine ⟨⟨h.whole, starts.2, fun b hb => ?_, Keyed.nodup_filter h.ids id,
    fun e he => h.issued e (kept e he), fun e he => h.fresh e (kept e he)⟩, starts.1,
    h.filled _ (split.mem_iff.mpr (List.mem_cons_self ..)), h.fresh _ mem, ?_⟩
  · exact h.filled b (split.mem_iff.mpr (List.mem_cons_of_mem _ hb))
  · rw [notes, notes, Multiset.cons_coe, Multiset.coe_eq_coe]
    exact ((parts.map _).append_left _).trans List.perm_middle

/-- A batch that is not filled waits again, and its peer is noted for it. -/
theorem apart_complete_nil (h : q.Apart) (free : r.range.start ∉ q.batches.map (·.start))
    (filled : 0 < r.range.count) (atFault : Bool) :
    (q.complete r [] atFault).Apart ∧
      (q.complete r [] atFault).notes = insert r.peer r.failedBy.toFinset ::ₘ q.notes := by
  have unpending : r.range.start ∉ q.pending.map Prod.fst := by
    rw [map_start_batches] at free
    exact fun waiting => free (List.mem_append_left _ waiting)
  have requeued : q.complete r [] atFault = { q with
      pending := q.pending.insert r.range.start ⟨r.range.count, r.failedBy.insert r.peer⟩ } := by
    rw [complete_requeues, requeue_eq]
    simp [Positioned.insertAll, Nat.ne_of_gt filled]
  have parts := Positioned.insert_perm (a := (⟨r.range.count, r.failedBy.insert r.peer⟩ : Pending))
    unpending
  rw [requeued]
  have added : (batches { q with
      pending := q.pending.insert r.range.start ⟨r.range.count, r.failedBy.insert r.peer⟩ }).Perm
      (r.range :: q.batches) := (parts.map _).append_right _
  refine ⟨⟨h.whole, (added.map _).nodup_iff.mpr (List.nodup_cons.mpr ⟨free, h.starts⟩),
    fun b hb => ?_, h.ids, h.issued, h.fresh⟩, ?_⟩
  · rcases List.mem_cons.mp (added.mem_iff.mp hb) with rfl | hb
    · exact filled
    · exact h.filled b hb
  · have noted : (r.failedBy.insert r.peer).toFinset = insert r.peer r.failedBy.toFinset := by
      ext other
      simp
    rw [← noted, notes, notes, Multiset.cons_coe, Multiset.coe_eq_coe]
    exact (parts.map _).append_right _

/-- What is filled is noted no more. -/
theorem apart_complete_whole (h : q.Apart) {items : List α} (whole : items.length = r.range.count)
    (atFault : Bool) :
    (q.complete r items atFault).Apart ∧ (q.complete r items atFault).notes = q.notes := by
  have same : q.complete r items atFault =
      { q with delivered := q.delivered.insertAll r.range.start (items.take r.range.count) } := by
    rw [complete_requeues, requeue_eq]
    simp [whole]
  rw [same]
  exact ⟨⟨h.whole, h.starts, h.filled, h.ids, h.issued, h.fresh⟩, rfl⟩

theorem apart_takeReady (h : q.Apart) : q.takeReady.2.Apart ∧ q.takeReady.2.notes = q.notes :=
  ⟨⟨h.whole, h.starts, h.filled, h.ids, h.issued, h.fresh⟩, rfl⟩

theorem apart_fail (h : q.Apart) (lost : q.fail? id = some (r, q')) :
    q'.Apart ∧ ∃ others, q.notes = r.failedBy.toFinset ::ₘ others ∧
      q'.notes = insert r.peer r.failedBy.toFinset ::ₘ others := by
  rw [fail?_eq, Option.map_eq_some_iff] at lost
  obtain ⟨⟨r, left⟩, taken, heq⟩ := lost
  cases heq
  obtain ⟨apart, free, filled, -, before⟩ := apart_take h taken
  obtain ⟨requeued, after⟩ := apart_complete_nil apart free filled true
  exact ⟨requeued, left.notes, before, after⟩

theorem length_insert_le {β : Type} (m : Positioned β) (p : Nat) (a : β) :
    (m.insert p a).length ≤ m.length + 1 := by
  induction m with
  | nil => exact Nat.le_refl _
  | cons e m ih =>
    simp only [Positioned.insert]
    split
    · exact Nat.le_refl _
    · split <;> simp only [List.length_cons] <;> omega

theorem length_foldl_insert_le (rs : List Range) (m : Positioned Pending) :
    (rs.foldl (fun m r => Positioned.insert r.start ⟨r.count, []⟩ m) m).length ≤
      m.length + rs.length := by
  induction rs generalizing m with
  | nil => exact Nat.le_refl _
  | cons r rs ih =>
    have first := length_insert_le m r.start (⟨r.count, []⟩ : Pending)
    have rest := ih (Positioned.insert r.start ⟨r.count, []⟩ m)
    rw [List.foldl_cons, List.length_cons]
    omega

/-- Nothing is noted of a new queue. -/
theorem apart_ofRanges (session : Nat) (ranges : List Range) :
    (ofRanges session ranges false : Queue α).Apart ∧ ∃ n ≤ ranges.length,
      (ofRanges session ranges false : Queue α).notes = Multiset.replicate n ∅ := by
  generalize hq : (ofRanges session ranges false : Queue α) = q
  have pending : q.pending = (ranges.filter (·.count > 0)).foldl
      (fun m r => Positioned.insert r.start ⟨r.count, []⟩ m) [] := by
    rw [← hq, ofRanges]
  have idle : q.inFlight = [] := by rw [← hq, ofRanges]
  have clean : ∀ e ∈ q.pending, e.2.failedBy = [] ∧ 0 < e.2.count := by
    intro e he
    rw [pending] at he
    rcases Positioned.mem_foldl_insert he with he | ⟨r, hr, rfl⟩
    · cases he
    · exact ⟨rfl, by simpa using (List.mem_filter.mp hr).2⟩
  have ascending : q.pending.Ascending := pending ▸ ascending_filled List.Pairwise.nil
  refine ⟨⟨by rw [← hq, ofRanges], ?_, fun b hb => ?_, by simp [idle], by simp [idle],
    by simp [idle]⟩, q.pending.length, ?_, ?_⟩
  · rw [map_start_batches, idle, List.map_nil, List.append_nil]
    exact List.pairwise_map.mpr (ascending.imp Nat.ne_of_lt)
  · simp only [batches, idle, requestRanges, List.map_nil, List.append_nil] at hb
    obtain ⟨e, he, rfl⟩ := List.mem_map.mp hb
    exact (clean e he).2
  · have few := length_foldl_insert_le (ranges.filter (·.count > 0)) []
    rw [← pending, List.length_nil, Nat.zero_add] at few
    exact few.trans (List.length_filter_le ..)
  · rw [notes, idle, List.map_nil, List.append_nil]
    refine Multiset.eq_replicate.mpr ⟨by simp, fun failed mem => ?_⟩
    obtain ⟨e, he, rfl⟩ := List.mem_map.mp (Multiset.mem_coe.mp mem)
    rw [(clean e he).1, List.toFinset_nil]

end ChainSync.Fetch.Queue
