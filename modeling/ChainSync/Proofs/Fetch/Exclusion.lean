import Mathlib.Data.Finset.Insert
import ChainSync.Proofs.Fetch.Allotment
set_option autoImplicit false

/-!
Who is kept from a position. A record of who failed which position is kept beside a queue, out of
nothing but what happens to it; whatever way positions take through batches and requests, the
failures noted where they are held are those of the record.
-/

namespace ChainSync.Fetch

variable {α : Type}

/-- Positions in one hand, and the peers that are not to have them. -/
structure Holding where
  range : Range
  failedBy : List PeerId
  deriving DecidableEq, Repr

theorem Queue.fail?_of_mem {q : Queue α} {id : RequestId} {r : InFlight}
    (distinct : (q.inFlight.map Prod.fst).Nodup) (asked : (id, r) ∈ q.inFlight) :
    ∃ queue, q.fail? id = some (r, queue) ∧ queue.inFlight = q.inFlight.filter (·.1 != id) := by
  have found := (Keyed.lookup_eq_some_iff distinct).mpr asked
  refine ⟨_, by rw [fail?, take?_eq_some.mpr ⟨found, rfl⟩]; rfl, ?_⟩
  rw [requeue_eq]

namespace Bench

/-- The pending batches, the requests in flight and those under completion. -/
def holdings (b : Bench α) : List Holding :=
  b.queue.pending.map (fun e => ⟨⟨e.1, e.2.count⟩, e.2.failedBy⟩) ++
    (b.queue.inFlight ++ b.taken).map fun e => ⟨e.2.range, e.2.failedBy⟩

/-- What an answer leaves of its range, if the peer is at fault or delivers nothing. -/
def shortfall (r : InFlight) (items : List α) (atFault : Bool) : List (PeerId × Range) :=
  let n := (items.take r.range.count).length
  if atFault || n == 0 then [(r.peer, ⟨r.range.start + n, r.range.count - n⟩)] else []

/-- Who fails what. -/
def failures (b : Bench α) : Op α → List (PeerId × Range)
  | .complete id items atFault =>
    match b.taken.lookup id with
    | none => []
    | some r => shortfall r items atFault
  | .fail id =>
    match b.queue.inFlight.lookup id with
    | none => []
    | some r => [(r.peer, r.range)]
  | .failPeer peer =>
    (b.queue.inFlight.filter (·.2.peer == peer)).map fun e => (e.2.peer, e.2.range)
  | .reserve .. | .take .. | .takeReady => []

def blame (failed : Nat → Finset PeerId) (failure : PeerId × Range) (p : Nat) : Finset PeerId :=
  if failure.2.contains p then insert failure.1 (failed p) else failed p

/-- What a reservation hands out. -/
def handedOut (b : Bench α) (peer : PeerId) (capacity : Nat) (live : List PeerId) : Option Range :=
  (b.queue.reserve peer capacity live).map (·.2.1)

/-- The batch that a reservation takes from, before it is cut. -/
def drawnOn (b : Bench α) (peer : PeerId) (capacity : Nat) (live : List PeerId) : Option Range :=
  (b.handedOut peer capacity live).bind fun range =>
    (b.queue.pending.get? range.start).map fun batch => ⟨range.start, batch.count⟩

/-- A new try is made when a position goes to a peer that has failed it, while every live peer has.
It forgets the failures of all that it reaches. -/
def note (reach : Bench α → PeerId → Nat → List PeerId → Option Range) (b : Bench α) (op : Op α)
    (failed : Nat → Finset PeerId) : Nat → Finset PeerId :=
  match op with
  | .reserve peer capacity live => fun p =>
    if (reach b peer capacity live).any (·.contains p) ∧ peer ∈ failed p ∧
        live.all (· ∈ failed p) then ∅
    else failed p
  | op => (b.failures op).foldl blame failed

/-- Who has failed each position since it was last tried anew. -/
def blamed (reach : Bench α → PeerId → Nat → List PeerId → Option Range) :
    Bench α → List (Op α) → (Nat → Finset PeerId) → Nat → Finset PeerId
  | _, [], failed => failed
  | b, op :: ops, failed => blamed reach (b.apply op) ops (note reach b op failed)

/-- The failures noted are those of the record. -/
def Agrees (failed : Nat → Finset PeerId) (held : List Holding) : Prop :=
  ∀ x ∈ held, ∀ p, x.range.contains p → ∀ peer, peer ∈ x.failedBy ↔ peer ∈ failed p

/-- The record tells what is noted, and nobody is asked for what he is kept from. -/
structure Recorded (b : Bench α) (failed : Nat → Finset PeerId) : Prop where
  agrees : Agrees failed b.holdings
  fresh : ∀ e ∈ b.queue.inFlight ++ b.taken, e.2.peer ∉ e.2.failedBy

variable {start stop : Nat} {b : Bench α} {failed failed' : Nat → Finset PeerId}

theorem map_range_holdings (b : Bench α) : b.holdings.map (·.range) = b.lots := by
  simp [holdings, lots, pendingRanges, requestRanges, Function.comp_def]

theorem mem_blame {failure : PeerId × Range} {p : Nat} {peer : PeerId} :
    peer ∈ blame failed failure p ↔
      peer ∈ failed p ∨ (peer = failure.1 ∧ failure.2.contains p) := by
  unfold blame
  split
  · rename_i inside
    simp [inside, or_comm]
  · rename_i outside
    simp [outside]

/-- No two hands hold the same position. -/
theorem Balanced.alone (h : b.Balanced start stop) {x : Holding} {others : List Holding}
    (parts : b.holdings.Perm (x :: others)) :
    ∀ y ∈ others, ∀ p, x.range.contains p → y.range.contains p = false := by
  intro y hy p here
  by_contra there
  rw [Bool.not_eq_false] at there
  have twice : 2 ≤ cover b.lots p := by
    rw [← map_range_holdings, cover_perm (parts.map _), List.map_cons, cover_cons]
    have positive : 0 < cover (others.map (·.range)) p :=
      List.countP_pos_iff.mpr ⟨y.range, List.mem_map_of_mem hy, there⟩
    rw [if_pos ((x.range.contains_iff p).mp here)]
    omega
  have once := h.le_one p
  rw [places, cover_cons, cover_append] at once
  omega

/-- Only what one hand held changes: it goes to others, in parts, and the record tells of them. -/
theorem Recorded.pass (balanced : b.Balanced start stop) (h : b.Recorded failed) {x : Holding}
    {others now : List Holding} (whole : b.holdings.Perm (x :: others))
    (same : ∀ p, x.range.contains p = false → failed' p = failed p) (told : Agrees failed' now) :
    Agrees failed' (now ++ others) := by
  intro y hy p here peer
  rcases List.mem_append.mp hy with hy | hy
  · exact told y hy p here peer
  · have elsewhere : x.range.contains p = false := by
      by_contra there
      rw [Bool.not_eq_false] at there
      rw [balanced.alone whole y hy p there] at here
      cases here
    rw [same p elsewhere]
    exact h.agrees y (whole.mem_iff.mpr (List.mem_cons_of_mem _ hy)) p here peer

theorem Recorded.perm {q : Queue α} {taken taken' : List (RequestId × InFlight)}
    (h : Recorded ⟨q, taken⟩ failed) (ht : taken.Perm taken') : Recorded ⟨q, taken'⟩ failed := by
  have requests := ht.append_left q.inFlight
  refine ⟨fun x hx => h.agrees x ?_, fun e he => h.fresh e (requests.mem_iff.mpr he)⟩
  exact ((requests.map _).append_left _).mem_iff.mpr hx

theorem drawnOn_eq (balanced : b.Balanced start stop) {peer : PeerId} {capacity : Nat}
    {live : List PeerId} {id : RequestId} {range : Range} {queue : Queue α} {batch : Pending}
    (handed : b.queue.reserve peer capacity live = some (id, range, queue))
    (waiting : (range.start, batch) ∈ b.queue.pending) :
    b.drawnOn peer capacity live = some ⟨range.start, batch.count⟩ := by
  have found : b.queue.pending.get? range.start = some batch :=
    (Keyed.lookup_eq_some_iff balanced.nodup_pending).mpr waiting
  simp [drawnOn, handedOut, handed, found]

/-- Whoever gets a part of the batch that is drawn on, the record tells of it. -/
theorem agrees_retry {peer : PeerId} {capacity : Nat} {live : List PeerId} {batch : Pending}
    {whole part : Range} (own : Agrees failed [⟨whole, batch.failedBy⟩])
    (eligible : batch.eligible peer live) (drawn : b.drawnOn peer capacity live = some whole)
    (first : whole.start ≤ part.start)
    (last : part.start + part.count ≤ whole.start + whole.count) :
    Agrees (note drawnOn b (.reserve peer capacity live) failed)
      [⟨part, (batch.retry peer).failedBy⟩] := by
  intro x hx p here other
  obtain rfl := List.mem_singleton.mp hx
  have there : whole.contains p := Range.contains_of_within here first last
  have own : ∀ other, other ∈ batch.failedBy ↔ other ∈ failed p :=
    own _ (List.mem_singleton_self _) p there
  simp only [note, drawn, Option.any_some, there, true_and, Pending.failedBy_retry,
    List.all_eq_true, decide_eq_true_eq, ← own]
  by_cases again : peer ∈ batch.failedBy
  · have fit : ∀ other ∈ live, other ∈ batch.failedBy :=
      (Pending.eligible_iff.mp eligible).resolve_left (not_not_intro again)
    simp [if_pos again, if_pos (And.intro again fit)]
  · rw [if_neg again, if_neg fun all => again all.1]
    exact own other

/-- Both parts of a batch that is cut, and the batch as a whole, note what the record does. -/
theorem recorded_reserve (balanced : b.Balanced start stop) (h : b.Recorded failed)
    (ascending : b.queue.pending.Ascending) {peer : PeerId} {capacity : Nat} {live : List PeerId}
    {id : RequestId} {range : Range} {queue : Queue α}
    (handed : b.queue.reserve peer capacity live = some (id, range, queue)) :
    Recorded { b with queue } (note drawnOn b (.reserve peer capacity live) failed) := by
  obtain ⟨before, batch, after, parts, eligible, -, count, -, rfl⟩ :=
    reserve_splits balanced ascending handed
  have within : range.count ≤ batch.count := by rw [count]; split <;> omega
  have drawn : b.drawnOn peer capacity live = some ⟨range.start, batch.count⟩ :=
    drawnOn_eq balanced handed (by simp [parts])
  let others : List Holding :=
    (before ++ after).map (fun e => ⟨⟨e.1, e.2.count⟩, e.2.failedBy⟩) ++
      (b.queue.inFlight ++ b.taken).map fun e => ⟨e.2.range, e.2.failedBy⟩
  have whole : b.holdings.Perm (⟨⟨range.start, batch.count⟩, batch.failedBy⟩ :: others) := by
    rw [holdings, parts]
    exact (List.perm_middle.map _).append_right _
  have own : Agrees failed [⟨⟨range.start, batch.count⟩, batch.failedBy⟩] := fun x hx =>
    h.agrees x (whole.mem_iff.mpr (List.mem_append_left others hx))
  let now : List Holding := [⟨range, (batch.retry peer).failedBy⟩] ++
    [⟨⟨range.stop, batch.count - range.count⟩, (batch.retry peer).failedBy⟩]
  have passed : Agrees (note drawnOn b (.reserve peer capacity live) failed) (now ++ others) := by
    refine h.pass balanced whole (fun p outside => ?_) fun x hx => ?_
    · simp [note, drawn, outside]
    · rcases List.mem_append.mp hx with front | rest
      · exact agrees_retry own eligible drawn (Nat.le_refl range.start)
          (by dsimp only; omega) x front
      · exact agrees_retry own eligible drawn (Nat.le_add_right ..)
          (by dsimp only [Range.stop]; omega) x rest
  refine ⟨fun x hx => passed x ?_, fun e he => ?_⟩
  · dsimp only [holdings] at hx
    dsimp only [now, others]
    simp only [List.map_append, List.mem_append, List.map_cons, List.map_nil, List.mem_cons,
      List.not_mem_nil, or_false] at hx ⊢
    split at hx
    · simp only [List.map_cons, List.map_nil, List.mem_cons, List.not_mem_nil, or_false] at hx
      tauto
    · simp only [List.map_nil, List.not_mem_nil, or_false] at hx
      tauto
  · simp only [List.mem_append, List.mem_singleton] at he
    rcases he with (he | rfl) | he
    · exact h.fresh e (List.mem_append_left _ he)
    · exact batch.not_mem_retry peer
    · exact h.fresh e (List.mem_append_right _ he)

/-- Taking a request leaves it in other hands, as it is. -/
theorem recorded_take (balanced : b.Balanced start stop) (h : b.Recorded failed) {id : RequestId}
    {r : InFlight} {queue : Queue α} (taken : b.queue.take? id = some (r, queue)) :
    Recorded ⟨queue, (id, r) :: b.taken⟩ failed := by
  obtain ⟨found, rfl⟩ := Queue.take?_eq_some.mp taken
  have distinct := balanced.nodup_requests.1
  have requests : (b.queue.inFlight ++ b.taken).Perm
      (b.queue.inFlight.filter (·.1 != id) ++ (id, r) :: b.taken) :=
    ((Keyed.perm_cons_filter distinct (Keyed.mem_of_lookup found)).append_right _).trans
      List.perm_middle.symm
  refine ⟨fun x hx => h.agrees x ?_, fun e he => h.fresh e (requests.mem_iff.mpr he)⟩
  exact ((requests.map _).append_left _).mem_iff.mpr hx

/-- What a completion puts back, it notes as the record does. -/
theorem recorded_complete {q : Queue α} {id : RequestId} {r : InFlight}
    {taken : List (RequestId × InFlight)} (balanced : Balanced start stop ⟨q, (id, r) :: taken⟩)
    (h : Recorded ⟨q, (id, r) :: taken⟩ failed) (items : List α) (atFault : Bool) :
    Recorded ⟨q.complete r items atFault, taken⟩
      ((shortfall r items atFault).foldl blame failed) := by
  have kept : (items.take r.range.count).length ≤ r.range.count := List.length_take_le ..
  rw [q.complete_requeues r items atFault, Queue.requeue_eq, shortfall]
  generalize (items.take r.range.count).length = n at kept ⊢
  generalize (atFault || n == 0) = fault
  let held : Holding := ⟨r.range, r.failedBy⟩
  let left : Holding := ⟨⟨r.range.start + n, r.range.count - n⟩,
    if fault then r.failedBy.insert r.peer else r.failedBy⟩
  let others : List Holding := holdings ⟨q, taken⟩
  have whole : (holdings ⟨q, (id, r) :: taken⟩).Perm (held :: others) := by
    have requests : (q.inFlight ++ (id, r) :: taken).Perm ((id, r) :: (q.inFlight ++ taken)) :=
      List.perm_middle
    exact ((requests.map _).append_left _).trans List.perm_middle
  have within (p : Nat) (inside : left.range.contains p) : held.range.contains p :=
    Range.contains_of_within inside (Nat.le_add_right ..) (by dsimp only [left, held]; omega)
  have own : ∀ p, held.range.contains p → ∀ peer, peer ∈ r.failedBy ↔ peer ∈ failed p :=
    h.agrees held (whole.mem_iff.mpr (List.mem_cons_self ..))
  have noted (p : Nat) (peer : PeerId) :
      peer ∈ (if fault then [(r.peer, left.range)] else []).foldl blame failed p ↔
        peer ∈ failed p ∨ (fault ∧ peer = r.peer ∧ left.range.contains p) := by
    cases fault with
    | false => simp
    | true => simp [mem_blame]
  have passed :
      Agrees ((if fault then [(r.peer, left.range)] else []).foldl blame failed)
        ([left] ++ others) := by
    refine h.pass balanced whole (fun p outside => ?_) fun x hx p inside peer => ?_
    · ext peer
      rw [noted, or_iff_left]
      rintro ⟨-, -, inside⟩
      rw [within p inside] at outside
      cases outside
    · obtain rfl := List.mem_singleton.mp hx
      rw [noted, ← own p (within p inside)]
      cases fault with
      | false => simp [left]
      | true => simp [left, inside, or_comm]
  refine ⟨fun x hx => passed x ?_, fun e he => h.fresh e ?_⟩
  · dsimp only [holdings] at hx
    rcases List.mem_append.mp hx with waiting | asked
    · obtain ⟨e, he, rfl⟩ := List.mem_map.mp waiting
      split at he
      · exact List.mem_append_right _ (List.mem_append_left _ (List.mem_map_of_mem he))
      · rcases Positioned.mem_of_mem_insert he with rfl | he
        · exact List.mem_append_left _ (List.mem_singleton_self _)
        · exact List.mem_append_right _ (List.mem_append_left _ (List.mem_map_of_mem he))
    · exact List.mem_append_right _ (List.mem_append_right _ asked)
  · simp only [List.mem_append, List.mem_cons] at he ⊢
    tauto

/-- A lost request is failed as a whole. -/
theorem recorded_fail (balanced : b.Balanced start stop) (h : b.Recorded failed) {id : RequestId}
    {r : InFlight} {queue : Queue α} (lost : b.queue.fail? id = some (r, queue)) :
    Recorded { b with queue } (blame failed (r.peer, r.range)) := by
  rw [Queue.fail?_eq, Option.map_eq_some_iff] at lost
  obtain ⟨⟨r, taken⟩, ht, heq⟩ := lost
  cases heq
  simpa [shortfall] using
    recorded_complete (balanced_take balanced ht) (recorded_take balanced h ht) [] true

/-- Requests are lost one by one, and none of those still to come is touched. -/
theorem recorded_lost {es : List (RequestId × InFlight)} (distinct : (es.map Prod.fst).Nodup)
    (asked : ∀ e ∈ es, e ∈ b.queue.inFlight) (balanced : b.Balanced start stop)
    (h : b.Recorded failed) :
    Recorded
      { b with
        queue := (es.map Prod.fst).foldl
          (fun q id => match q.fail? id with | some (_, q) => q | none => q) b.queue }
      ((es.map fun e => (e.2.peer, e.2.range)).foldl blame failed) := by
  induction es generalizing b failed with
  | nil => exact h
  | cons e es ih =>
    obtain ⟨id, r⟩ := e
    simp only [List.map_cons, List.nodup_cons, List.mem_cons, forall_eq_or_imp] at distinct asked
    obtain ⟨queue, lost, left⟩ := Queue.fail?_of_mem balanced.nodup_requests.1 asked.1
    simp only [List.map_cons, List.foldl_cons, lost]
    refine ih (b := { b with queue }) distinct.2 (fun e he => ?_) (balanced_fail balanced lost)
      (recorded_fail balanced h lost)
    have other : e.1 ≠ id := fun same => distinct.1 (same ▸ List.mem_map_of_mem he)
    rw [left]
    exact List.mem_filter.mpr ⟨asked.2 e he, bne_iff_ne.mpr other⟩

theorem recorded_apply (balanced : b.Balanced start stop) (ascending : b.queue.pending.Ascending)
    (h : b.Recorded failed) (op : Op α) : (b.apply op).Recorded (note drawnOn b op failed) := by
  cases op with
  | reserve peer capacity live =>
    cases handed : b.queue.reserve peer capacity live with
    | none => simpa [apply, note, drawnOn, handedOut, handed] using h
    | some x => simpa only [apply, handed] using recorded_reserve balanced h ascending handed
  | take id =>
    cases taken : b.queue.take? id with
    | none => simpa only [apply, note, failures, List.foldl_nil, taken] using h
    | some x =>
      simpa only [apply, note, failures, List.foldl_nil, taken] using
        recorded_take balanced h taken
  | complete id items atFault =>
    cases found : b.taken.lookup id with
    | none => simpa [apply, note, failures, found] using h
    | some r =>
      have whole := Keyed.perm_cons_filter balanced.nodup_requests.2 (Keyed.mem_of_lookup found)
      simpa only [apply, note, failures, found] using
        recorded_complete (balanced.perm whole) (h.perm whole) items atFault
  | fail id =>
    cases found : b.queue.inFlight.lookup id with
    | none => simpa [apply, note, failures, Queue.fail?, Queue.take?, found] using h
    | some r =>
      obtain ⟨queue, lost, -⟩ :=
        Queue.fail?_of_mem balanced.nodup_requests.1 (Keyed.mem_of_lookup found)
      simpa [apply, note, failures, found, lost] using recorded_fail balanced h lost
  | failPeer peer =>
    have distinct : ((b.queue.inFlight.filter (·.2.peer == peer)).map Prod.fst).Nodup :=
      balanced.nodup_requests.1.sublist (List.filter_sublist.map _)
    exact recorded_lost distinct (fun e he => List.mem_of_mem_filter he) balanced h
  | takeReady => exact ⟨h.agrees, h.fresh⟩

theorem recorded_run (balanced : b.Balanced start stop) (ascending : b.queue.pending.Ascending)
    (h : b.Recorded failed) (ops : List (Op α)) :
    (b.run ops).Recorded (blamed drawnOn b ops failed) := by
  induction ops generalizing b failed with
  | nil => exact h
  | cons op ops ih =>
    exact ih (balanced_apply balanced op) (ascending_apply ascending op)
      (recorded_apply balanced ascending h op)

/-- A position that is not delivered is in one hand. -/
theorem Balanced.holder (h : b.Balanced start stop) {p : Nat} (unreleased : b.queue.nextRelease ≤ p)
    (inside : p < stop) (undelivered : b.queue.delivered.get? p = none) :
    ∃ x, b.holdings.filter (·.range.contains p) = [x] := by
  have first := h.start_le
  have once := (h.once p).trans (if_pos ⟨Nat.le_trans first unreleased, inside⟩)
  rw [places, cover_cons, cover_append, cover_delivered_eq_zero undelivered,
    if_neg (by dsimp only; omega), ← map_range_holdings, cover, List.countP_map] at once
  rw [← List.length_eq_one_iff, ← List.countP_eq_length_filter]
  simpa [Function.comp_def] using once

/-- What a peer has failed it is handed only if every live peer has failed it. -/
theorem Recorded.handed (h : b.Recorded failed) (balanced : b.Balanced start stop)
    (ascending : b.queue.pending.Ascending) {peer : PeerId} {capacity : Nat} {live : List PeerId}
    {id : RequestId} {range : Range} {queue : Queue α}
    (handed : b.queue.reserve peer capacity live = some (id, range, queue)) {p : Nat}
    (here : range.contains p) (again : peer ∈ failed p) : ∀ other ∈ live, other ∈ failed p := by
  obtain ⟨before, batch, after, parts, eligible, -, count, -⟩ :=
    reserve_splits balanced ascending handed
  have within : range.count ≤ batch.count := by rw [count]; split <;> omega
  have there : Range.contains ⟨range.start, batch.count⟩ p :=
    Range.contains_of_within here (Nat.le_refl _) (Nat.add_le_add_left within _)
  have own := h.agrees ⟨⟨range.start, batch.count⟩, batch.failedBy⟩
    (List.mem_append_left _ (List.mem_map.mpr ⟨(range.start, batch), by simp [parts], rfl⟩)) p
    there
  intro other listed
  rw [← own] at again ⊢
  exact (Pending.eligible_iff.mp eligible).resolve_left (not_not_intro again) other listed

/-- A part delivered without fault leaves a rest that its peer may have. -/
theorem Recorded.rest (h : b.Recorded failed) (balanced : b.Balanced start stop) {id : RequestId}
    {r : InFlight} {items : List α} (found : b.taken.lookup id = some r) (some : items ≠ [])
    (part : items.length < r.range.count) :
    ∃ batch, (r.range.start + items.length, batch) ∈
        (b.apply (.complete id items false)).queue.pending ∧
      batch.count = r.range.count - items.length ∧ ∀ live, batch.eligible r.peer live := by
  have whole := Keyed.perm_cons_filter balanced.nodup_requests.2 (Keyed.mem_of_lookup found)
  have free : r.range.start + items.length ∉ b.queue.pending.map Prod.fst :=
    ((balanced.perm whole).free (Nat.le_add_right ..) (Nat.add_lt_add_left part _)).2
  have fresh : r.peer ∉ r.failedBy :=
    h.fresh _ (List.mem_append_right _ (Keyed.mem_of_lookup found))
  refine ⟨⟨r.range.count - items.length, r.failedBy⟩, ?_, rfl, fun live =>
    Pending.eligible_iff.mpr (.inl fresh)⟩
  have kept : items.take r.range.count = items := List.take_of_length_le (Nat.le_of_lt part)
  have unfaulted : (false || items.length == 0) = false := by simpa using some
  simp only [apply, found, Queue.complete_requeues, Queue.requeue_eq, kept, unfaulted]
  rw [if_neg (by omega)]
  exact (Positioned.insert_perm free).mem_iff.mpr (List.mem_cons_self ..)

end Bench

theorem Queue.Opens.recorded {q : Queue α} {start stop : Nat} (h : q.Opens start stop) :
    Bench.Recorded ⟨q, []⟩ fun _ => ∅ := by
  have clean : ∀ e ∈ q.pending, e.2.failedBy = [] := by
    intro e he
    cases h with
    | count | ranges =>
      rcases Positioned.mem_foldl_insert he with he | ⟨r, -, rfl⟩
      · exact absurd he List.not_mem_nil
      · rfl
  have idle : q.inFlight = [] := by cases h <;> rfl
  refine ⟨fun x hx p _ peer => ?_, fun e he => ?_⟩
  · simp only [Bench.holdings, idle, List.append_nil, List.map_nil] at hx
    obtain ⟨e, he, rfl⟩ := List.mem_map.mp hx
    simp [clean e he]
  · simp [idle] at he

/-- However a queue is worked on, the failures noted for a position are those of the peers that
failed it since a batch with it was last tried anew. Nobody is handed a position that he has failed
while some live peer has not, and who delivers a part without fault may have the rest. -/
theorem exclusions_follow_failures {q : Queue α} {start stop : Nat} (opens : q.Opens start stop)
    (ops : List (Bench.Op α)) :
    let b := Bench.run ⟨q, []⟩ ops
    let failed := Bench.blamed Bench.drawnOn ⟨q, []⟩ ops fun _ => ∅
    (∀ p, b.queue.nextRelease ≤ p → p < stop → b.queue.delivered.get? p = none →
      ∃ x, b.holdings.filter (·.range.contains p) = [x] ∧
        ∀ peer, peer ∈ x.failedBy ↔ peer ∈ failed p) ∧
    (∀ peer capacity live id range queue,
      b.queue.reserve peer capacity live = some (id, range, queue) →
        ∀ p, range.contains p → peer ∈ failed p → ∀ other ∈ live, other ∈ failed p) ∧
    (∀ id r items, b.taken.lookup id = some r → items ≠ [] → items.length < r.range.count →
      ∃ batch, (r.range.start + items.length, batch) ∈
          (b.apply (.complete id items false)).queue.pending ∧
        batch.count = r.range.count - items.length ∧ ∀ live, batch.eligible r.peer live) := by
  intro b failed
  have balanced : b.Balanced start stop := Bench.balanced_run opens.balanced ops
  have ascending : b.queue.pending.Ascending := Bench.ascending_run opens.ascending ops
  have recorded : b.Recorded failed :=
    Bench.recorded_run opens.balanced opens.ascending opens.recorded ops
  refine ⟨fun p unreleased inside undelivered => ?_,
    fun peer capacity live id range queue handed p here again =>
      recorded.handed balanced ascending handed here again,
    fun id r items found some part => recorded.rest balanced found some part⟩
  obtain ⟨x, only⟩ := balanced.holder unreleased inside undelivered
  obtain ⟨mem, here⟩ := List.mem_filter.mp (only ▸ List.mem_singleton_self x)
  exact ⟨x, only, recorded.agrees x mem p here⟩

/-- A first peer loses everything, a second one delivers a part of it and then loses the rest:
either may have that again. -/
theorem exclusions_follow_failures_in_turn :
    let q : Queue Nat := .ofCount 1 0 10 10 true
    let ops : List (Bench.Op Nat) :=
      [.reserve 1 10 [1, 2], .fail ⟨1, 0⟩, .reserve 2 10 [1, 2], .take ⟨1, 1⟩]
    let later : List (Bench.Op Nat) :=
      ops ++ [.complete ⟨1, 1⟩ [7, 7, 7] false, .reserve 2 10 [1, 2], .fail ⟨1, 2⟩]
    let b := Bench.run ⟨q, []⟩ ops
    let c := Bench.run ⟨q, []⟩ later
    q.Opens 0 10 ∧
      (∃ x, b.holdings.filter (·.range.contains 4) = [x] ∧ 1 ∈ x.failedBy ∧ 2 ∉ x.failedBy) ∧
      (∃ batch, (3, batch) ∈ (b.apply (.complete ⟨1, 1⟩ [7, 7, 7] false)).queue.pending ∧
        batch.count = 7 ∧ batch.eligible 2 [1, 2]) ∧
      (c.queue.reserve 1 4 [1, 2]).map (·.2.1) = some ⟨3, 4⟩ ∧
      ∀ other ∈ [1, 2], other ∈ Bench.blamed Bench.drawnOn ⟨q, []⟩ later (fun _ => ∅) 3 := by
  intro q ops later b c
  have opens : q.Opens 0 10 := .count 1 0 10 10 true
  obtain ⟨unreleased, undelivered, taken, first, second⟩ :
      b.queue.nextRelease ≤ 4 ∧ b.queue.delivered.get? 4 = none ∧
        b.taken.lookup ⟨1, 1⟩ = some ⟨2, ⟨0, 10⟩, [1]⟩ ∧
        1 ∈ Bench.blamed Bench.drawnOn ⟨q, []⟩ ops (fun _ => ∅) 4 ∧
        2 ∉ Bench.blamed Bench.drawnOn ⟨q, []⟩ ops (fun _ => ∅) 4 := by
    decide +kernel
  obtain ⟨range, again⟩ :
      (c.queue.reserve 1 4 [1, 2]).map (·.2.1) = some ⟨3, 4⟩ ∧
        1 ∈ Bench.blamed Bench.drawnOn ⟨q, []⟩ later (fun _ => ∅) 3 := by
    decide +kernel
  -- from here on the runs are not computed any more
  clear_value later ops
  obtain ⟨held, -, rest⟩ := exclusions_follow_failures opens ops
  obtain ⟨-, handed, -⟩ := exclusions_follow_failures opens later
  obtain ⟨⟨id, handedOut, queue⟩, reserved, rfl⟩ := Option.map_eq_some_iff.mp range
  obtain ⟨x, only, failed⟩ := held 4 unreleased (by decide) undelivered
  obtain ⟨batch, waiting, count, eligible⟩ :=
    rest ⟨1, 1⟩ _ [7, 7, 7] taken (by simp) (by decide)
  refine ⟨opens, ⟨x, only, (failed 1).mpr first, fun noted => second ((failed 2).mp noted)⟩,
    ⟨batch, waiting, count, eligible [1, 2]⟩, range, ?_⟩
  exact handed 1 4 [1, 2] id _ queue reserved 3 (by decide) again

/-- Not only what is handed out is tried anew. The peer has failed the last positions and was not
handed them since, but no failure is noted for them, and it is handed them again though another one
has not failed them. -/
theorem cut_batch_forgets_its_rest :
    let q : Queue Nat := .ofCount 1 0 10 10 true
    let ops : List (Bench.Op Nat) := [.reserve 1 10 [1], .fail ⟨1, 0⟩, .reserve 1 4 [1]]
    let b := Bench.run ⟨q, []⟩ ops
    let failed := Bench.blamed Bench.handedOut ⟨q, []⟩ ops fun _ => ∅
    q.Opens 0 10 ∧ b.queue.delivered.get? 4 = none ∧ failed 4 = {1} ∧
      b.holdings.filter (·.range.contains 4) = [⟨⟨4, 6⟩, []⟩] ∧
      (b.queue.reserve 1 4 [1, 2]).map (·.2.1) = some ⟨4, 4⟩ := by
  intro q ops b failed
  have opens : q.Opens 0 10 := .count 1 0 10 10 true
  exact ⟨opens, by decide +kernel⟩

end ChainSync.Fetch
