import Mathlib.Tactic.SplitIfs
import ChainSync.Proofs.Fetch.Cover
set_option autoImplicit false

/-!
Who holds the positions of a queue. Every operation moves positions between what was released,
what was delivered, what is pending, and the requests in flight or under completion; none makes
a position appear, vanish or be held twice.
-/

namespace ChainSync.Fetch

variable {α : Type}

namespace Queue

theorem reserve_eq_some {q q' : Queue α} {peer : PeerId} {capacity : Nat} {live : List PeerId}
    {id : RequestId} {range : Range}
    (h : q.reserve peer capacity live = some (id, range, q')) :
    ∃ batch failedBy, (range.start, batch) ∈ q.pending ∧ range.count ≤ batch.count ∧
      (0 < batch.count → 0 < range.count) ∧ (q.splittable = false → range.count = batch.count) ∧
      id = ⟨q.session, q.nextAttempt⟩ ∧
      q' = { q with
        nextAttempt := q.nextAttempt + 1
        pending :=
          if range.count < batch.count then
            (q.pending.erase range.start).insert range.stop ⟨batch.count - range.count, failedBy⟩
          else q.pending.erase range.start
        inFlight := q.inFlight ++ [(id, ⟨peer, range, failedBy⟩)] } := by
  unfold reserve at h
  split at h
  · simp at h
  · rename_i start batch found
    have hmem := List.mem_of_find?_eq_some found
    have hcount : (batch.retry peer).count = batch.count := by
      unfold Pending.retry; split <;> rfl
    simp only [Option.some.injEq, Prod.mk.injEq] at h
    obtain ⟨rfl, rfl, rfl⟩ := h
    refine ⟨batch, (batch.retry peer).failedBy, hmem, ?_, ?_, ?_, rfl, ?_⟩
    · simp only [hcount]; split <;> omega
    · simp only [hcount]; split <;> omega
    · intro hs; simp [hs, hcount]
    · simp only [hcount]

theorem take?_eq_some {q q' : Queue α} {id : RequestId} {r : InFlight} :
    q.take? id = some (r, q') ↔
      q.inFlight.lookup id = some r ∧
        q' = { q with inFlight := q.inFlight.filter (·.1 != id) } := by
  simp only [take?, Option.map_eq_some_iff, Prod.mk.injEq]
  constructor
  · rintro ⟨r', hr, rfl, rfl⟩; exact ⟨hr, rfl⟩
  · rintro ⟨hr, rfl⟩; exact ⟨r, hr, rfl, rfl⟩

theorem requeue_eq (q : Queue α) (range : Range) (failedBy : List PeerId) :
    q.requeue range failedBy = { q with
      pending :=
        if range.count = 0 then q.pending
        else q.pending.insert range.start ⟨range.count, failedBy⟩ } := by
  unfold requeue
  split <;> rfl

/-- The items that a completion keeps are delivered, and what is left of its range waits again. -/
theorem complete_requeues (q : Queue α) (r : InFlight) (items : List α) (atFault : Bool) :
    q.complete r items atFault =
      { q with
        delivered := q.delivered.insertAll r.range.start (items.take r.range.count)
      : Queue α }.requeue
        ⟨r.range.start + (items.take r.range.count).length,
          r.range.count - (items.take r.range.count).length⟩
        (if atFault || (items.take r.range.count).length == 0 then r.failedBy.insert r.peer
        else r.failedBy) := by
  unfold complete
  by_cases hn : (items.take r.range.count).length < r.range.count
  · rw [if_pos hn]
  · have hz : r.range.count - (items.take r.range.count).length = 0 := by omega
    rw [if_neg hn, requeue, if_pos hz]

theorem complete_eq (q : Queue α) (r : InFlight) (items : List α) (atFault : Bool) :
    ∃ failedBy, q.complete r items atFault =
      { q with
        delivered := q.delivered.insertAll r.range.start (items.take r.range.count)
      : Queue α }.requeue
        ⟨r.range.start + (items.take r.range.count).length,
          r.range.count - (items.take r.range.count).length⟩ failedBy :=
  ⟨_, q.complete_requeues r items atFault⟩

theorem complete_keeps (q : Queue α) (r : InFlight) (items : List α) (atFault : Bool) :
    (q.complete r items atFault).delivered =
        q.delivered.insertAll r.range.start (items.take r.range.count) ∧
      (q.complete r items atFault).nextRelease = q.nextRelease := by
  obtain ⟨failedBy, heq⟩ := q.complete_eq r items atFault
  rw [heq, requeue_eq]
  exact ⟨rfl, rfl⟩

/-- A lost request is completed with nothing, and its peer is at fault. -/
theorem fail?_eq (q : Queue α) (id : RequestId) :
    q.fail? id = (q.take? id).map fun (r, q) => (r, q.complete r [] true) := by
  unfold fail?
  congr 1
  funext ⟨r, q'⟩
  by_cases hc : r.range.count = 0
  · simp [complete, requeue, Positioned.insertAll, hc]
  · simp [complete, requeue, Positioned.insertAll, hc, Nat.pos_of_ne_zero hc]

theorem fail?_keeps {q q' : Queue α} {id : RequestId} {r : InFlight}
    (h : q.fail? id = some (r, q')) :
    q'.delivered = q.delivered ∧ q'.nextRelease = q.nextRelease := by
  rw [fail?_eq, Option.map_eq_some_iff] at h
  obtain ⟨⟨r, taken⟩, ht, heq⟩ := h
  cases heq
  obtain ⟨-, rfl⟩ := take?_eq_some.mp ht
  have hc := complete_keeps { q with inFlight := q.inFlight.filter (·.1 != id) } r [] true
  rwa [List.take_nil] at hc

/-- What one lost request keeps, losing all requests of a peer keeps. -/
theorem failPeer_induction {P : Queue α → Prop} {q : Queue α} (peer : PeerId) (start : P q)
    (step : ∀ {q q' : Queue α} {id : RequestId} {r : InFlight}, P q → q.fail? id = some (r, q') →
      P q') :
    P (q.failPeer peer).2 := by
  unfold failPeer
  generalize q.requestsOf peer = ids
  induction ids generalizing q with
  | nil => exact start
  | cons id ids ih =>
    rw [List.foldl_cons]
    cases hf : q.fail? id with
    | none => exact ih start
    | some x => exact ih (step start hf)

theorem failPeer_keeps (q : Queue α) (peer : PeerId) :
    (q.failPeer peer).2.delivered = q.delivered ∧
      (q.failPeer peer).2.nextRelease = q.nextRelease :=
  failPeer_induction (P := fun q' => q'.delivered = q.delivered ∧ q'.nextRelease = q.nextRelease)
    peer ⟨rfl, rfl⟩
    fun hq hf => ⟨(fail?_keeps hf).1.trans hq.1, (fail?_keeps hf).2.trans hq.2⟩

theorem isDone_iff (q : Queue α) : q.isDone ↔ q.stop ≤ q.nextRelease := by simp [isDone]

/-- What leaves are the items at consecutive positions; all others stay. -/
theorem release_perm (fuel next : Nat) {m : Positioned α} (hm : (m.map Prod.fst).Nodup) :
    (release fuel next m).2.1 = next + (release fuel next m).1.length ∧
      m.Perm (Positioned.numbered next (release fuel next m).1 ++ (release fuel next m).2.2) := by
  induction fuel generalizing next m with
  | zero => exact ⟨rfl, .refl _⟩
  | succ fuel ih =>
    unfold release
    cases hg : m.get? next with
    | none => exact ⟨rfl, .refl _⟩
    | some a =>
      have hperm := Keyed.perm_cons_filter hm (Keyed.mem_of_lookup hg)
      have hrest := ih (next + 1) (m := m.erase next) (Keyed.nodup_filter hm next)
      refine ⟨?_, hperm.trans (hrest.2.cons _)⟩
      simp only [List.length_cons, hrest.1]
      omega

end Queue

def pendingRanges (m : Positioned Pending) : List Range := m.map fun e => ⟨e.1, e.2.count⟩

def deliveredRanges (m : Positioned α) : List Range := m.map fun e => ⟨e.1, 1⟩

def requestRanges (rs : List (RequestId × InFlight)) : List Range := rs.map (·.2.range)

theorem not_mem_of_cover_pending {m : Positioned Pending} {p : Nat}
    (filled : ∀ r ∈ pendingRanges m, 0 < r.count) (h : cover (pendingRanges m) p = 0) :
    p ∉ m.map Prod.fst := by
  intro hm
  obtain ⟨e, he, rfl⟩ := List.mem_map.mp hm
  have hr : (⟨e.1, e.2.count⟩ : Range) ∈ pendingRanges m := List.mem_map_of_mem he
  have hf : 0 < e.2.count := filled _ hr
  have hpos := cover_pos (p := e.1) hr (Nat.le_refl _) (Nat.lt_add_of_pos_right hf)
  omega

theorem not_mem_of_cover_delivered {m : Positioned α} {p : Nat}
    (h : cover (deliveredRanges m) p = 0) : p ∉ m.map Prod.fst := by
  intro hm
  obtain ⟨e, he, rfl⟩ := List.mem_map.mp hm
  have hr : (⟨e.1, 1⟩ : Range) ∈ deliveredRanges m := List.mem_map_of_mem he
  have hpos := cover_pos (p := e.1) hr (Nat.le_refl _) (Nat.lt_succ_self _)
  omega

theorem cover_delivered_eq_zero {m : Positioned α} {p : Nat} (h : m.get? p = none) :
    cover (deliveredRanges m) p = 0 := by
  refine List.countP_eq_zero.mpr fun s hs covered => ?_
  obtain ⟨e, he, rfl⟩ := List.mem_map.mp hs
  have same : e.1 = p := by
    rw [Range.contains_iff] at covered
    exact Nat.le_antisymm covered.1 (Nat.le_of_lt_succ covered.2)
  exact Keyed.lookup_eq_none_iff.mp h (same ▸ List.mem_map_of_mem he)

theorem pendingRanges_insert {m : Positioned Pending} {p : Nat} (h : p ∉ m.map Prod.fst)
    (b : Pending) : (pendingRanges (m.insert p b)).Perm (⟨p, b.count⟩ :: pendingRanges m) :=
  (Positioned.insert_perm h).map _

theorem pendingRanges_erase {m : Positioned Pending} (hm : (m.map Prod.fst).Nodup) {p : Nat}
    {b : Pending} (h : (p, b) ∈ m) :
    (pendingRanges m).Perm (⟨p, b.count⟩ :: pendingRanges (m.erase p)) :=
  (Keyed.perm_cons_filter hm h).map _

theorem cover_pending_insert {m : Positioned Pending} {p : Nat} (h : p ∉ m.map Prod.fst)
    (n : Nat) (failedBy : List PeerId) (i : Nat) :
    cover (pendingRanges (m.insert p ⟨n, failedBy⟩)) i =
      cover (pendingRanges m) i + if p ≤ i ∧ i < p + n then 1 else 0 := by
  rw [cover_perm (pendingRanges_insert h _), cover_cons]

theorem cover_pending_erase {m : Positioned Pending} (hm : (m.map Prod.fst).Nodup) {p : Nat}
    {b : Pending} (h : (p, b) ∈ m) (i : Nat) :
    cover (pendingRanges m) i =
      cover (pendingRanges (m.erase p)) i + if p ≤ i ∧ i < p + b.count then 1 else 0 := by
  rw [cover_perm (pendingRanges_erase hm h), cover_cons]

theorem nodup_of_cover_pending {m : Positioned Pending}
    (filled : ∀ r ∈ pendingRanges m, 0 < r.count) (h : ∀ p, cover (pendingRanges m) p ≤ 1) :
    (m.map Prod.fst).Nodup := by
  induction m with
  | nil => exact .nil
  | cons e m ih =>
    simp only [pendingRanges, List.map_cons, List.mem_cons, forall_eq_or_imp, cover_cons]
      at filled h
    refine List.nodup_cons.mpr ⟨not_mem_of_cover_pending filled.2 ?_, ih filled.2 fun p => ?_⟩
    · have he := h e.1
      rw [if_pos (by omega)] at he
      exact Nat.le_zero.mp (Nat.le_of_succ_le_succ he)
    · exact Nat.le_trans (Nat.le_add_right _ _) (h p)

theorem nodup_of_cover_delivered {m : Positioned α} (h : ∀ p, cover (deliveredRanges m) p ≤ 1) :
    (m.map Prod.fst).Nodup := by
  induction m with
  | nil => exact .nil
  | cons e m ih =>
    simp only [deliveredRanges, List.map_cons, cover_cons] at h
    refine List.nodup_cons.mpr ⟨not_mem_of_cover_delivered ?_, ih fun p => ?_⟩
    · have he := h e.1
      rw [if_pos (by omega)] at he
      exact Nat.le_zero.mp (Nat.le_of_succ_le_succ he)
    · exact Nat.le_trans (Nat.le_add_right _ _) (h p)

theorem cover_numbered (p : Nat) (xs : List α) (i : Nat) :
    cover (deliveredRanges (Positioned.numbered p xs)) i =
      if p ≤ i ∧ i < p + xs.length then 1 else 0 := by
  induction xs generalizing p with
  | nil => simp [Positioned.numbered, deliveredRanges]
  | cons x xs ih =>
    have hx := ih (p + 1)
    simp only [deliveredRanges] at hx
    simp only [Positioned.numbered, deliveredRanges, List.map_cons, cover_cons, hx,
      List.length_cons]
    split_ifs <;> omega

/-- A queue, and the requests that were taken out of it and wait for their completion. -/
structure Bench (α : Type) where
  queue : Queue α
  taken : List (RequestId × InFlight)

namespace Bench

inductive Op (α : Type) where
  | reserve (peer : PeerId) (capacity : Nat) (live : List PeerId)
  | take (id : RequestId)
  | complete (id : RequestId) (items : List α) (atFault : Bool)
  | fail (id : RequestId)
  | failPeer (peer : PeerId)
  | takeReady

def apply (b : Bench α) : Op α → Bench α
  | .reserve peer capacity live =>
    match b.queue.reserve peer capacity live with
    | none => b
    | some (_, _, queue) => { b with queue }
  | .take id =>
    match b.queue.take? id with
    | none => b
    | some (request, queue) => { queue, taken := (id, request) :: b.taken }
  | .complete id items atFault =>
    match b.taken.lookup id with
    | none => b
    | some request =>
      { queue := b.queue.complete request items atFault, taken := b.taken.filter (·.1 != id) }
  | .fail id =>
    match b.queue.fail? id with
    | none => b
    | some (_, queue) => { b with queue }
  | .failPeer peer => { b with queue := (b.queue.failPeer peer).2 }
  | .takeReady => { b with queue := b.queue.takeReady.2 }

def run (b : Bench α) (ops : List (Op α)) : Bench α := ops.foldl apply b

/-- Where positions are handed out from, and the requests they were handed out to. -/
def lots (b : Bench α) : List Range :=
  pendingRanges b.queue.pending ++ requestRanges b.queue.inFlight ++ requestRanges b.taken

/-- Every place a position can be in, as the range of the positions there: those released since
`start`, each delivered one, each pending batch, each request. -/
def places (b : Bench α) (start : Nat) : List Range :=
  ⟨start, b.queue.nextRelease - start⟩ :: (deliveredRanges b.queue.delivered ++ b.lots)

/-- The positions of `[start, stop)` and no others are accounted for, each once. -/
structure Balanced (start stop : Nat) (b : Bench α) : Prop where
  stop_eq : b.queue.stop = stop
  start_le : start ≤ b.queue.nextRelease
  once : ∀ p, cover (b.places start) p = if start ≤ p ∧ p < stop then 1 else 0
  filled : ∀ r ∈ b.lots, 0 < r.count
  ids : ((b.queue.inFlight ++ b.taken).map Prod.fst).Nodup
  issued : ∀ e ∈ b.queue.inFlight ++ b.taken,
    e.1.session = b.queue.session ∧ e.1.attempt < b.queue.nextAttempt

theorem cover_places (b : Bench α) (start p : Nat) :
    cover (b.places start) p =
      cover (deliveredRanges b.queue.delivered) p + cover (pendingRanges b.queue.pending) p +
        cover (requestRanges b.queue.inFlight) p + cover (requestRanges b.taken) p +
          if start ≤ p ∧ p < start + (b.queue.nextRelease - start) then 1 else 0 := by
  simp only [places, lots, cover_cons, cover_append]
  omega

variable {start stop : Nat} {b : Bench α}

theorem Balanced.le_one (h : b.Balanced start stop) (p : Nat) : cover (b.places start) p ≤ 1 := by
  rw [h.once]; split <;> omega

theorem Balanced.filled_pending (h : b.Balanced start stop) :
    ∀ r ∈ pendingRanges b.queue.pending, 0 < r.count :=
  fun r hr => h.filled r (by simp [lots, hr])

theorem Balanced.nodup_pending (h : b.Balanced start stop) :
    (b.queue.pending.map Prod.fst).Nodup :=
  nodup_of_cover_pending h.filled_pending fun p => by
    have := h.le_one p
    rw [cover_places] at this
    omega

theorem Balanced.nodup_requests (h : b.Balanced start stop) :
    (b.queue.inFlight.map Prod.fst).Nodup ∧ (b.taken.map Prod.fst).Nodup := by
  have ids := h.ids
  rw [List.map_append] at ids
  exact ⟨ids.of_append_left, ids.of_append_right⟩

theorem Balanced.nodup_delivered (h : b.Balanced start stop) :
    (b.queue.delivered.map Prod.fst).Nodup :=
  nodup_of_cover_delivered fun p => by
    have := h.le_one p
    rw [cover_places] at this
    omega

theorem Balanced.delivered_within (h : b.Balanced start stop) {p : Nat}
    (hp : p ∈ b.queue.delivered.map Prod.fst) : b.queue.nextRelease ≤ p ∧ p < stop := by
  have hpos : 0 < cover (deliveredRanges b.queue.delivered) p := by
    obtain ⟨e, he, rfl⟩ := List.mem_map.mp hp
    exact cover_pos (r := ⟨e.1, 1⟩) (List.mem_map_of_mem he) (Nat.le_refl _) (Nat.lt_succ_self _)
  have hone := h.once p
  have hle := h.start_le
  rw [cover_places] at hone
  split_ifs at hone <;> omega

theorem Balanced.next_le_delivered (h : b.Balanced start stop) {p : Nat}
    (hp : p ∈ b.queue.delivered.map Prod.fst) : b.queue.nextRelease ≤ p :=
  (h.delivered_within hp).1

theorem Balanced.delivered_lt (h : b.Balanced start stop) {p : Nat}
    (hp : p ∈ b.queue.delivered.map Prod.fst) : p < stop :=
  (h.delivered_within hp).2

/-- Work is never outside of what a queue was opened with. -/
theorem Balanced.lots_within (h : b.Balanced start stop) {r : Range} (hr : r ∈ b.lots) :
    r.stop ≤ stop := by
  have filled := h.filled r hr
  have placed : r ∈ b.places start := List.mem_cons_of_mem _ (List.mem_append_right _ hr)
  have covered := cover_pos (p := r.start + (r.count - 1)) placed (Nat.le_add_right ..)
    (Nat.add_lt_add_left (Nat.sub_lt filled Nat.one_pos) _)
  rw [h.once] at covered
  split at covered
  · rw [Range.stop]
    omega
  · cases covered

theorem Balanced.nodup_out (h : b.Balanced start stop) :
    (List.range' start (b.queue.nextRelease - start) ++ b.queue.delivered.map Prod.fst).Nodup := by
  refine List.nodup_append.mpr ⟨List.nodup_range', h.nodup_delivered, fun p hp p' hp' => ?_⟩
  have := h.next_le_delivered hp'
  rw [List.mem_range'_1] at hp
  omega

theorem Balanced.next_le (h : b.Balanced start stop) (hle : start ≤ stop) :
    b.queue.nextRelease ≤ stop := by
  have hone := h.once stop
  rw [cover_places, if_neg (c := start ≤ stop ∧ stop < stop) (by omega)] at hone
  by_contra hlt
  rw [if_pos (by omega)] at hone
  omega

theorem balanced_reserve (h : b.Balanced start stop) {peer : PeerId} {capacity : Nat}
    {live : List PeerId} {id : RequestId} {range : Range} {queue : Queue α}
    (hr : b.queue.reserve peer capacity live = some (id, range, queue)) :
    Balanced start stop { b with queue } := by
  obtain ⟨batch, failedBy, hmem, hle, hpos, -, rfl, rfl⟩ := Queue.reserve_eq_some hr
  have hperm := pendingRanges_erase h.nodup_pending hmem
  have hfilled := h.filled_pending
  have hbatch : 0 < batch.count := hfilled ⟨_, _⟩ (hperm.mem_iff.mpr (List.mem_cons_self ..))
  have hothers : ∀ r ∈ pendingRanges (b.queue.pending.erase range.start), 0 < r.count :=
    fun r hr => hfilled r (hperm.mem_iff.mpr (List.mem_cons_of_mem _ hr))
  have hcover := cover_pending_erase h.nodup_pending hmem
  -- what is left of the batch starts where no other batch can
  have hfree : range.count < batch.count →
      range.stop ∉ (b.queue.pending.erase range.start).map Prod.fst := by
    intro hlt
    refine not_mem_of_cover_pending hothers ?_
    have hone := h.le_one range.stop
    rw [cover_places, hcover, if_pos (by rw [Range.stop]; omega)] at hone
    omega
  refine ⟨h.stop_eq, h.start_le, fun p => ?_, ?_, ?_, ?_⟩
  · rw [← h.once p, cover_places, cover_places, hcover]
    simp only [requestRanges, List.map_append, List.map_cons, List.map_nil, cover_append,
      cover_cons, cover_nil]
    split
    · rename_i hlt
      rw [cover_pending_insert (hfree hlt), Range.stop]
      split_ifs <;> omega
    · have heq : range.count = batch.count := by omega
      rw [heq]; omega
  · intro r hr
    simp only [lots, requestRanges, List.map_append, List.map_cons, List.map_nil, List.mem_append,
      List.mem_singleton] at hr
    have hold := h.filled r
    simp only [lots, requestRanges, List.mem_append] at hold
    rcases hr with (hr | hr | rfl) | hr
    · split at hr
      · rename_i hlt
        rcases List.mem_cons.mp ((pendingRanges_insert (hfree hlt) _).mem_iff.mp hr) with rfl | hr
        · exact Nat.sub_pos_of_lt hlt
        · exact hothers r hr
      · exact hothers r hr
    · exact hold (.inl (.inr hr))
    · exact hpos hbatch
    · exact hold (.inr hr)
  · have hfresh : (⟨b.queue.session, b.queue.nextAttempt⟩ : RequestId) ∉
        (b.queue.inFlight ++ b.taken).map Prod.fst := by
      intro hm
      obtain ⟨e, he, hid⟩ := List.mem_map.mp hm
      have := (h.issued e he).2
      rw [hid] at this
      exact Nat.lt_irrefl _ this
    have hnd := List.nodup_cons.mpr ⟨hfresh, h.ids⟩
    simpa [List.nodup_middle] using hnd
  · intro e he
    simp only [List.mem_append, List.mem_singleton] at he
    have hold := h.issued e
    simp only [List.mem_append] at hold
    rcases he with (he | rfl) | he
    · exact ⟨(hold (.inl he)).1, Nat.lt_succ_of_lt (hold (.inl he)).2⟩
    · exact ⟨rfl, Nat.lt_succ_self _⟩
    · exact ⟨(hold (.inr he)).1, Nat.lt_succ_of_lt (hold (.inr he)).2⟩

theorem balanced_take (h : b.Balanced start stop) {id : RequestId} {r : InFlight}
    {queue : Queue α} (ht : b.queue.take? id = some (r, queue)) :
    Balanced start stop ⟨queue, (id, r) :: b.taken⟩ := by
  obtain ⟨hr, rfl⟩ := Queue.take?_eq_some.mp ht
  have hperm := Keyed.perm_cons_filter h.nodup_requests.1 (Keyed.mem_of_lookup hr)
  have hall : (b.queue.inFlight ++ b.taken).Perm
      (b.queue.inFlight.filter (·.1 != id) ++ (id, r) :: b.taken) :=
    (hperm.append_right _).trans List.perm_middle.symm
  refine ⟨h.stop_eq, h.start_le, fun p => ?_, fun s hs => ?_, ?_, fun e he => ?_⟩
  · rw [← h.once p, cover_places, cover_places]
    have hc := cover_perm (hperm.map (·.2.range)) p
    simp only [requestRanges, List.map_cons, cover_cons] at hc ⊢
    omega
  · refine h.filled s ?_
    have hc := (hperm.map (·.2.range)).mem_iff (a := s)
    simp only [lots, requestRanges, List.map_cons, List.mem_append, List.mem_cons] at hc hs ⊢
    rw [hc]
    tauto
  · exact (hall.map _).nodup_iff.mp h.ids
  · exact h.issued e (hall.mem_iff.mpr he)

theorem Balanced.perm {q : Queue α} {taken taken' : List (RequestId × InFlight)}
    (h : Balanced start stop ⟨q, taken⟩) (ht : taken.Perm taken') :
    Balanced start stop ⟨q, taken'⟩ := by
  have hall := ht.append_left q.inFlight
  refine ⟨h.stop_eq, h.start_le, fun p => ?_, fun s hs => h.filled s ?_, ?_, fun e he => ?_⟩
  · rw [← h.once p, cover_places, cover_places]
    have hc := cover_perm (ht.map (·.2.range)) p
    simp only [requestRanges] at hc ⊢
    omega
  · simp only [lots, requestRanges, List.mem_append] at hs ⊢
    rwa [(ht.map (·.2.range)).mem_iff]
  · exact (hall.map _).nodup_iff.mp h.ids
  · exact h.issued e (hall.mem_iff.mpr he)

/-- Only a request under completion holds the positions of its range. -/
theorem Balanced.free {q : Queue α} {id : RequestId} {r : InFlight}
    {taken : List (RequestId × InFlight)} (h : Balanced start stop ⟨q, (id, r) :: taken⟩) {i : Nat}
    (hi : r.range.start ≤ i) (hs : i < r.range.start + r.range.count) :
    i ∉ q.delivered.map Prod.fst ∧ i ∉ q.pending.map Prod.fst := by
  have hone := h.le_one i
  rw [cover_places] at hone
  simp only [requestRanges, List.map_cons, cover_cons] at hone
  rw [if_pos (c := r.range.start ≤ i ∧ _) ⟨hi, hs⟩] at hone
  exact ⟨not_mem_of_cover_delivered (by omega),
    not_mem_of_cover_pending h.filled_pending (by omega)⟩

theorem Balanced.unreleased {q : Queue α} {id : RequestId} {r : InFlight}
    {taken : List (RequestId × InFlight)} (h : Balanced start stop ⟨q, (id, r) :: taken⟩) {i : Nat}
    (hi : r.range.start ≤ i) (hs : i < r.range.start + r.range.count) : q.nextRelease ≤ i := by
  have hone := h.once i
  have hle := h.start_le
  rw [cover_places] at hone
  simp only [requestRanges, List.map_cons, cover_cons] at hone hle
  rw [if_pos (c := r.range.start ≤ i ∧ _) ⟨hi, hs⟩] at hone
  split_ifs at hone <;> omega

theorem balanced_complete {q : Queue α} {id : RequestId} {r : InFlight}
    {taken : List (RequestId × InFlight)} (h : Balanced start stop ⟨q, (id, r) :: taken⟩)
    (items : List α) (atFault : Bool) :
    Balanced start stop ⟨q.complete r items atFault, taken⟩ := by
  obtain ⟨failedBy, heq⟩ := q.complete_eq r items atFault
  have hn : (items.take r.range.count).length ≤ r.range.count := List.length_take_le _ _
  have hr : 0 < r.range.count := h.filled _ (by simp [lots, requestRanges])
  have hdel := Positioned.insertAll_perm (items.take r.range.count) (m := q.delivered)
    fun i hi hs => (h.free hi (by omega)).1
  rw [heq, Queue.requeue_eq]
  generalize items.take r.range.count = kept at hn hdel
  have hfree : r.range.count - kept.length ≠ 0 →
      r.range.start + kept.length ∉ q.pending.map Prod.fst :=
    fun hne => (h.free (by omega) (by omega)).2
  refine ⟨h.stop_eq, h.start_le, fun p => ?_, fun s hs => ?_, ?_, fun e he => ?_⟩
  · rw [← h.once p, cover_places, cover_places]
    have hd : cover (deliveredRanges (q.delivered.insertAll r.range.start kept)) p =
        (if r.range.start ≤ p ∧ p < r.range.start + kept.length then 1 else 0) +
          cover (deliveredRanges q.delivered) p := by
      rw [deliveredRanges, cover_perm (hdel.map _), List.map_append, cover_append]
      exact congrArg (· + _) (cover_numbered ..)
    simp only [hd, requestRanges, List.map_cons, cover_cons]
    by_cases hz : r.range.count - kept.length = 0
    · have hk : kept.length = r.range.count := by omega
      rw [if_pos hz, hk]
      omega
    · rw [if_neg hz, cover_pending_insert (hfree hz)]
      split_ifs <;> omega
  · have hold := h.filled s
    simp only [lots, requestRanges, List.map_cons, List.mem_append, List.mem_cons] at hs hold
    rcases hs with (hs | hs) | hs
    · split at hs
      · exact hold (.inl (.inl hs))
      · rename_i hne
        rcases List.mem_cons.mp ((pendingRanges_insert (hfree hne) _).mem_iff.mp hs) with rfl | hs
        · exact Nat.pos_of_ne_zero hne
        · exact hold (.inl (.inl hs))
    · exact hold (.inl (.inr hs))
    · exact hold (.inr (.inr hs))
  · have hnd := h.ids
    simp only [List.map_append, List.map_cons, List.nodup_middle] at hnd
    simpa using (List.nodup_cons.mp hnd).2
  · exact h.issued e (by simp only [List.mem_append, List.mem_cons] at he ⊢; tauto)

theorem balanced_fail (h : b.Balanced start stop) {id : RequestId} {r : InFlight}
    {queue : Queue α} (hf : b.queue.fail? id = some (r, queue)) :
    Balanced start stop { b with queue } := by
  rw [Queue.fail?_eq, Option.map_eq_some_iff] at hf
  obtain ⟨⟨r, q⟩, ht, heq⟩ := hf
  cases heq
  exact balanced_complete (balanced_take h ht) [] true

theorem balanced_failPeer (h : b.Balanced start stop) (peer : PeerId) :
    Balanced start stop { b with queue := (b.queue.failPeer peer).2 } :=
  Queue.failPeer_induction (P := fun queue => Balanced start stop { b with queue }) peer h
    fun h hf => balanced_fail h hf

theorem balanced_takeReady (h : b.Balanced start stop) :
    Balanced start stop { b with queue := b.queue.takeReady.2 } := by
  obtain ⟨hnext, hperm⟩ := Queue.release_perm b.queue.delivered.length
    b.queue.nextRelease h.nodup_delivered
  unfold Queue.takeReady
  generalize Queue.release _ _ _ = out at hnext hperm
  obtain ⟨items, next, rest⟩ := out
  simp only at hnext hperm ⊢
  subst hnext
  have hle := h.start_le
  refine ⟨h.stop_eq, Nat.le_trans hle (Nat.le_add_right _ _), fun p => ?_, h.filled, h.ids,
    h.issued⟩
  rw [← h.once p, cover_places, cover_places]
  have hd : cover (deliveredRanges b.queue.delivered) p =
      (if b.queue.nextRelease ≤ p ∧ p < b.queue.nextRelease + items.length then 1 else 0) +
        cover (deliveredRanges rest) p := by
    rw [deliveredRanges, cover_perm (hperm.map _), List.map_append, cover_append]
    exact congrArg (· + _) (cover_numbered ..)
  simp only [hd]
  split_ifs <;> omega

theorem balanced_apply (h : b.Balanced start stop) (op : Op α) :
    (b.apply op).Balanced start stop := by
  cases op with
  | reserve peer capacity live =>
    cases hr : b.queue.reserve peer capacity live with
    | none => simpa only [apply, hr] using h
    | some x => simpa only [apply, hr] using balanced_reserve h hr
  | take id =>
    cases ht : b.queue.take? id with
    | none => simpa only [apply, ht] using h
    | some x => simpa only [apply, ht] using balanced_take h ht
  | complete id items atFault =>
    cases hr : b.taken.lookup id with
    | none => simpa only [apply, hr] using h
    | some r =>
      have hperm := Keyed.perm_cons_filter h.nodup_requests.2 (Keyed.mem_of_lookup hr)
      simpa only [apply, hr] using balanced_complete (h.perm hperm) items atFault
  | fail id =>
    cases hf : b.queue.fail? id with
    | none => simpa only [apply, hf] using h
    | some x => simpa only [apply, hf] using balanced_fail h hf
  | failPeer peer => exact balanced_failPeer h peer
  | takeReady => exact balanced_takeReady h

theorem balanced_run (h : b.Balanced start stop) (ops : List (Op α)) :
    (b.run ops).Balanced start stop := by
  induction ops generalizing b with
  | nil => exact h
  | cons op ops ih => exact ih (balanced_apply h op)

end Bench

/-- A new queue has all of `[start, stop)` before it. Without any ranges it starts at zero. -/
inductive Queue.Opens : Queue α → Nat → Nat → Prop where
  | count (session start count size : Nat) (splittable : Bool) :
    Opens (.ofCount session start count size splittable) start (start + count)
  | ranges (session : Nat) {ranges : List Range} {start stop : Nat} (splittable : Bool)
    (gapFree : Tiles start ranges stop) (nonempty : ranges = [] → start = 0) :
    Opens (.ofRanges session ranges splittable) start stop

theorem pendingRanges_foldl {start stop : Nat} {rs : List Range} (h : Tiles start rs stop)
    (filled : ∀ r ∈ rs, 0 < r.count) {m : Positioned Pending}
    (below : ∀ k ∈ m.map Prod.fst, k < start) :
    (pendingRanges (rs.foldl (fun m r => m.insert r.start ⟨r.count, []⟩) m)).Perm
      (rs ++ pendingRanges m) := by
  induction rs generalizing start m with
  | nil => exact .refl _
  | cons r rest ih =>
    obtain ⟨rfl, hrest⟩ := h
    simp only [List.mem_cons, forall_eq_or_imp] at filled
    have hfree : r.start ∉ m.map Prod.fst := fun hm => Nat.lt_irrefl _ (below _ hm)
    have hkeys := (Positioned.insert_perm (a := (⟨r.count, []⟩ : Pending)) hfree).map Prod.fst
    refine (ih hrest filled.2 fun k hk => ?_).trans ?_
    · rw [Range.stop]
      rcases List.mem_cons.mp (hkeys.mem_iff.mp hk) with rfl | hk
      · exact Nat.lt_add_of_pos_right filled.1
      · exact Nat.lt_add_right _ (below k hk)
    · exact ((pendingRanges_insert hfree _).append_left rest).trans List.perm_middle

theorem pendingRanges_ofRanges (α : Type) {start stop : Nat} {rs : List Range}
    (h : Tiles start rs stop) (session : Nat) (splittable : Bool) :
    (pendingRanges (Queue.ofRanges session rs splittable : Queue α).pending).Perm
      (rs.filter (·.count > 0)) := by
  have fill : ∀ r ∈ rs.filter (·.count > 0), 0 < r.count := by
    intro r hr
    simpa using (List.mem_filter.mp hr).2
  simpa [Queue.ofRanges, pendingRanges] using pendingRanges_foldl h.filter fill (m := []) (by simp)

theorem Bench.balanced_new {q : Queue α} {rs : List Range} {start stop : Nat}
    (h : Tiles start rs stop) (filled : ∀ r ∈ rs, 0 < r.count)
    (pending : (pendingRanges q.pending).Perm rs) (inFlight : q.inFlight = [])
    (delivered : q.delivered = []) (next : q.nextRelease = start) (last : q.stop = stop) :
    Balanced start stop ⟨q, []⟩ := by
  refine ⟨last, Nat.le_of_eq next.symm, fun p => ?_, fun r hr => filled r ?_, ?_, ?_⟩
  · rw [← h.cover p, cover_places, inFlight, delivered, next, cover_perm pending]
    simp [requestRanges, deliveredRanges]
  · simpa [lots, inFlight, requestRanges, pending.mem_iff] using hr
  · simp [inFlight]
  · simp [inFlight]

theorem Queue.Opens.balanced {q : Queue α} {start stop : Nat} (h : q.Opens start stop) :
    Bench.Balanced start stop ⟨q, []⟩ := by
  have fill : ∀ (rs : List Range), ∀ r ∈ rs.filter (·.count > 0), 0 < r.count := by
    intro rs r hr
    simpa using (List.mem_filter.mp hr).2
  cases h with
  | count session _ count size splittable =>
    have ht := tiles_cut size start count
    exact Bench.balanced_new ht.filter (fill _) (pendingRanges_ofRanges α ht session splittable)
      rfl rfl rfl rfl
  | ranges session splittable ht hne =>
    refine Bench.balanced_new ht.filter (fill _) (pendingRanges_ofRanges α ht session splittable)
      rfl rfl (ht.start_eq hne) ?_
    have hs := ht.stop_eq
    rwa [← ht.start_eq hne] at hs

/-- However a queue is worked on, every position of it is in one place, and ranges in flight do
not meet. -/
theorem each_position_in_one_place {q : Queue α} {start stop : Nat} (h : q.Opens start stop)
    (ops : List (Bench.Op α)) :
    let b := Bench.run ⟨q, []⟩ ops
    (∀ p, cover (b.places start) p = if start ≤ p ∧ p < stop then 1 else 0) ∧
      start ≤ b.queue.nextRelease ∧ b.queue.stop = stop ∧
      b.queue.inFlight.Pairwise fun r s => r.2.range.overlaps s.2.range = false := by
  intro b
  have hb : b.Balanced start stop := Bench.balanced_run h.balanced ops
  refine ⟨hb.once, hb.start_le, hb.stop_eq, ?_⟩
  have hpair := pairwise_of_cover_le_one (requestRanges b.queue.inFlight)
    (fun p => by
      have := hb.le_one p
      rw [Bench.cover_places] at this
      omega)
    (fun r hr => hb.filled r (by simp [Bench.lots, hr]))
  exact List.pairwise_map.mp hpair

theorem each_position_in_one_place_split :
    let q : Queue Nat := .ofCount 1 10 25 10 true
    let ops : List (Bench.Op Nat) :=
      [.reserve 1 4 [1, 2], .reserve 2 10 [1, 2], .take ⟨1, 0⟩, .fail ⟨1, 1⟩,
        .complete ⟨1, 0⟩ [0, 1] true, .takeReady, .reserve 2 1 [1, 2]]
    let b := Bench.run ⟨q, []⟩ ops
    q.Opens 10 35 ∧ (∀ p, cover (b.places 10) p = if 10 ≤ p ∧ p < 35 then 1 else 0) ∧
      b.queue.inFlight.map (·.2.range) = [⟨12, 1⟩] := by
  intro q ops b
  have hq : q.Opens 10 35 := .count 1 10 25 10 true
  exact ⟨hq, (each_position_in_one_place hq ops).1, by decide +kernel⟩

end ChainSync.Fetch
