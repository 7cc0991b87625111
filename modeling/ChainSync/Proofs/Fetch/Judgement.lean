import Mathlib.Order.Bounds.Basic
import ChainSync.Proofs.Fetch.Accounts
import ChainSync.Proofs.Fetch.Allotment
set_option autoImplicit false

/-!
What a fetch makes of an answer. Of its items those at the front that fit the headers asked for are
kept, each at the place of its header, and the rest of the range waits again.
-/

namespace ChainSync.Fetch

/-- Nobody is waited for who is kept from what it was asked for. -/
def Queue.Fresh {α : Type} (q : Queue α) : Prop :=
  ∀ id r, q.inFlight.lookup id = some r → r.peer ∉ r.failedBy

namespace Queue

variable {α : Type} {q q' : Queue α}

theorem Fresh.sheds (h : q.Fresh) (sheds : q.Sheds q') : q'.Fresh :=
  fun id r found => h id r (sheds.inFlight found)

theorem Fresh.reserve (h : q.Fresh) {peer : PeerId} {capacity : Nat} {live : List PeerId}
    {id : RequestId} {range : Range} (handed : q.reserve peer capacity live = some (id, range, q')) :
    q'.Fresh := by
  unfold Queue.reserve at handed
  split at handed
  · cases handed
  · rename_i start batch found
    cases handed
    intro id r asked
    rw [List.lookup_append, Option.or_eq_some_iff] at asked
    rcases asked with asked | ⟨-, asked⟩
    · exact h id r asked
    · have new := Keyed.mem_of_lookup asked
      simp only [List.mem_singleton, Prod.mk.injEq] at new
      rw [new.2]
      exact batch.not_mem_retry peer

end Queue

namespace BlockFetch

variable {δ : Type} [BlockData δ]

/-- The headers of the blocks that have something to ask for. -/
def sought (δ : Type) [BlockData δ] (headers : List Header) : List Header :=
  headers.filter fun h => !BlockData.committedEmpty δ h

/-- The headers whose items are asked for with a range. -/
def askedIn (δ : Type) [BlockData δ] (headers : List Header) (range : Range) : List Header :=
  ((sought δ headers).drop range.start).take range.count

/-- As many items as there are headers, and each fits its header. -/
def Fits (hs : List Header) (items : List δ) : Prop :=
  List.Forall₂ (fun h item => BlockData.validate h item = .ok ()) hs items

/-- How many items at the front fit the headers. -/
def fitting : List Header → List δ → Nat
  | h :: hs, item :: items =>
    match BlockData.validate h item with
    | .ok () => fitting hs items + 1
    | .error _ => 0
  | _, _ => 0

theorem fitting_le (hs : List Header) (items : List δ) :
    fitting hs items ≤ hs.length ∧ fitting hs items ≤ items.length := by
  fun_induction fitting hs items <;> simp_all

theorem fits_fitting (hs : List Header) (items : List δ) :
    Fits (hs.take (fitting hs items)) (items.take (fitting hs items)) := by
  fun_induction fitting hs items with
  | case1 h hs item items valid ih => exact .cons valid ih
  | case2 | case3 => exact .nil

theorem le_fitting {hs : List Header} {items : List δ} {k : Nat} (short : k ≤ hs.length)
    (fits : Fits (hs.take k) (items.take k)) : k ≤ fitting hs items := by
  induction k generalizing hs items with
  | zero => exact Nat.zero_le _
  | succ k ih =>
    cases hs with
    | nil => simp at short
    | cons h hs =>
      cases items with
      | nil => cases fits
      | cons item items =>
        obtain ⟨valid, rest⟩ := List.forall₂_cons.mp fits
        simp only [fitting, valid]
        exact Nat.succ_le_succ (ih (Nat.le_of_succ_le_succ short) rest)

/-- No longer part of the answer fits. -/
theorem isGreatest_fitting (hs : List Header) (items : List δ) :
    IsGreatest {k | k ≤ hs.length ∧ Fits (hs.take k) (items.take k)} (fitting hs items) :=
  ⟨⟨(fitting_le hs items).1, fits_fitting hs items⟩, fun _ ⟨short, fits⟩ => le_fitting short fits⟩

/-- What is kept of an answer is what fits, and something is wrong with any answer that has more. -/
theorem accept_eq {f : BlockFetch δ} {range : Range} {position : Nat} {hs : List Header}
    (stand : ∀ i, hs[i]? = if position + i < range.stop then f.headerAt? (position + i) else none)
    (response : List δ) :
    (f.accept range position response).1 = response.take (fitting hs response) ∧
      ((f.accept range position response).2.isSome ↔ fitting hs response < response.length) := by
  induction response generalizing position hs with
  | nil => cases hs <;> simp [accept, fitting]
  | cons item rest ih =>
    have first := stand 0
    rw [Nat.add_zero] at first
    rw [accept, ← first]
    cases hs with
    | nil => simp [fitting]
    | cons h hs =>
      simp only [List.getElem?_cons_zero]
      cases valid : BlockData.validate h item with
      | error err => simp [fitting, valid]
      | ok _ =>
        have rest' (i : Nat) : hs[i]? =
            if position + 1 + i < range.stop then f.headerAt? (position + 1 + i) else none := by
          rw [Nat.add_assoc, Nat.add_comm 1 i]
          exact stand (i + 1)
        obtain ⟨kept, fault⟩ := ih rest'
        simp [fitting, valid, kept, fault]

/-- Wanted blocks are numbered in the order of the headers. -/
theorem map_wantedFrom (headers : List Header) (i : Nat) :
    (wantedFrom δ i headers).map (fun index => headers[index - i]?) =
      (sought δ headers).map some := by
  induction headers generalizing i with
  | nil => rfl
  | cons h rest ih =>
    have later : (wantedFrom δ (i + 1) rest).map (fun index => (h :: rest)[index - i]?) =
        (sought δ rest).map some := by
      rw [← ih (i + 1)]
      refine List.map_congr_left fun index hindex => ?_
      have := (mem_wantedFrom.mp hindex).1
      rw [show index - i = (index - (i + 1)) + 1 by omega, List.getElem?_cons_succ]
    by_cases he : BlockData.committedEmpty δ h
    · rw [wantedFrom, if_pos he, later, sought, sought, List.filter_cons_of_neg (by simpa using he)]
    · rw [wantedFrom, if_neg he, List.map_cons, later, sought, sought,
        List.filter_cons_of_pos (by simpa using he)]
      simp

variable {f : BlockFetch δ} {headers : List Header} {kept : Positioned (δ × PeerId)}

theorem Aligned.headerAt?_eq (h : Aligned headers kept f) (p : Nat) :
    f.headerAt? p = (sought δ headers)[p]? := by
  obtain ⟨stored, placed, -⟩ := h.placed
  have numbered := congrArg (·[p]?) (map_wantedFrom (δ := δ) headers 0)
  simp only [List.getElem?_map, Nat.sub_zero] at numbered
  rw [headerAt?, placed.wanted_eq, h.headers_eq]
  cases hp : (wantedFrom δ 0 headers)[p]? <;> cases hs : (sought δ headers)[p]? <;>
    simp_all

/-- What is stored for a position, and who sent it: the item is in its place, or waits for those
before it. -/
def stored? (f : BlockFetch δ) (p : Nat) : Option (δ × PeerId) :=
  match f.queue.delivered.get? p, f.wanted[p]? with
  | some x, _ => some x
  | none, some index =>
    match f.items[index]?, f.deliveredBy[index]? with
    | some (some item), some (some peer) => some (item, peer)
    | _, _ => none
  | none, none => none

/-- What is stored are the items that were kept of all answers. -/
theorem Aligned.stored?_eq_some (h : Aligned headers kept f) {p : Nat} {x : δ × PeerId} :
    f.stored? p = some x ↔ (p, x) ∈ kept := by
  obtain ⟨taken, balanced⟩ := h.custody
  obtain ⟨stored, placed, next, perm⟩ := h.placed
  have room : stored.length ≤ f.wanted.length := next ▸ balanced.next_le (Nat.zero_le _)
  have waits := Keyed.lookup_eq_some_iff balanced.nodup_delivered (k := p) (v := x)
  rw [perm.mem_iff, List.mem_append, ← waits, Positioned.mem_numbered]
  simp only [Nat.zero_le, true_and, Nat.sub_zero, stored?]
  cases found : f.queue.delivered.get? p with
  | some y =>
    have behind : f.queue.nextRelease ≤ p :=
      balanced.next_le_delivered (List.mem_map_of_mem (Keyed.mem_of_lookup found))
    have absent : stored[p]? = none := List.getElem?_eq_none (next ▸ behind)
    rw [absent]
    simp [show f.queue.delivered.lookup p = some y from found]
  | none =>
    have absent : f.queue.delivered.lookup p = none := found
    rw [absent]
    cases hp : f.wanted[p]? with
    | none =>
      have outside : stored[p]? = none :=
        List.getElem?_eq_none (Nat.le_trans room (List.getElem?_eq_none_iff.mp hp))
      simp [outside]
    | some index =>
      obtain ⟨item, peer⟩ := placed.asked p index hp
      simp only [item, peer]
      cases stored[p]? <;> simp

/-- What comes of an answer to a request, when `m` items at its front fit the headers asked for. -/
structure Kept (f : BlockFetch δ) (id : RequestId) (peer : PeerId) (response : List δ)
    (r : InFlight) (m : Nat) (g : BlockFetch δ) (verdict : Delivery) : Prop where
  free : ∀ p, r.range.contains p → f.stored? p = none
  stored : ∀ p, g.stored? p =
    if r.range.start ≤ p ∧ p < r.range.start + m then
      response[p - r.range.start]?.map fun item => (item, peer)
    else f.stored? p
  empty : ∀ (index : Nat) (header : Header), f.headers[index]? = some header →
    BlockData.committedEmpty δ header →
      g.items[index]? = some (some BlockData.empty) ∧ g.deliveredBy[index]? = some none
  answered : g.queue.inFlight = f.queue.inFlight.filter (·.1 != id)
  /-- The rest of the range waits. Its peer may have it if all that it sent fits and it sent
  something. -/
  rest : ∃ failedBy, g.queue.pending.Perm
      ((if m < r.range.count then [(r.range.start + m, ⟨r.range.count - m, failedBy⟩)] else []) ++
        f.queue.pending) ∧
    (r.peer ∈ failedBy ↔ m ≠ response.length ∨ m = 0) ∧
    ∀ other, other ≠ r.peer → (other ∈ failedBy ↔ other ∈ r.failedBy)
  accepted : m = response.length → verdict = .accepted m
  rejected : m ≠ response.length → ∃ reason, verdict = .rejected m (response.length - m) reason

theorem Aligned.within (h : Aligned headers kept f) {id : RequestId} {r : InFlight}
    (waiting : f.queue.inFlight.lookup id = some r) :
    0 < r.range.count ∧ r.range.stop ≤ (sought δ headers).length := by
  obtain ⟨taken, balanced⟩ := h.custody
  obtain ⟨stored, placed, -⟩ := h.placed
  have lot : r.range ∈ Bench.lots ⟨f.queue, taken⟩ := by
    refine List.mem_append_left _ (List.mem_append_right _ ?_)
    exact List.mem_map_of_mem (f := (·.2.range)) (Keyed.mem_of_lookup waiting)
  have total := congrArg List.length (map_wantedFrom (δ := δ) headers 0)
  simp only [List.length_map] at total
  rw [← total, ← h.headers_eq, ← placed.wanted_eq]
  exact ⟨balanced.filled _ lot, balanced.lots_within lot⟩

/-- As many headers are asked for as the range has positions. -/
theorem Aligned.length_askedIn (h : Aligned headers kept f) {id : RequestId} {r : InFlight}
    (waiting : f.queue.inFlight.lookup id = some r) :
    (askedIn δ headers r.range).length = r.range.count := by
  have within := (h.within waiting).2
  rw [Range.stop] at within
  rw [askedIn, List.length_take, List.length_drop]
  omega

theorem Aligned.accepts (h : Aligned headers kept f) (range : Range) (response : List δ) :
    (f.accept range range.start response).1 =
        response.take (fitting (askedIn δ headers range) response) ∧
      ((f.accept range range.start response).2.isSome ↔
        fitting (askedIn δ headers range) response < response.length) := by
  refine accept_eq (fun i => ?_) response
  rw [askedIn, List.getElem?_take, List.getElem?_drop, h.headerAt?_eq, Range.stop]
  simp only [Nat.add_lt_add_iff_left]

/-- What an answer leaves pending and in flight. -/
theorem queue_deliver {id : RequestId} {r : InFlight}
    (waiting : f.queue.inFlight.lookup id = some r) (peer : PeerId) (response : List δ) :
    let judged := f.accept r.range r.range.start response
    let n := (judged.1.take r.range.count).length
    (f.deliver id peer response).1.queue.inFlight = f.queue.inFlight.filter (·.1 != id) ∧
    (f.deliver id peer response).1.queue.pending =
      if r.range.count - n = 0 then f.queue.pending
      else f.queue.pending.insert (r.range.start + n) ⟨r.range.count - n,
        if judged.2.isSome || n == 0 then r.failedBy.insert r.peer else r.failedBy⟩ := by
  intro judged n
  have request : f.queue.take? id = some (r, _) := Queue.take?_eq_some.mpr ⟨waiting, rfl⟩
  have length : ((judged.1.map fun item => (item, peer)).take r.range.count).length = n := by
    simp [n]
  rw [deliver_fst, (foldl_place_keeps ..).2.2]
  simp only [takeIn, request]
  change ((Queue.complete _ r (judged.1.map fun item => (item, peer)) judged.2.isSome).inFlight = _) ∧
    (Queue.complete _ r (judged.1.map fun item => (item, peer)) judged.2.isSome).pending = _
  rw [Queue.complete_requeues, Queue.requeue_eq, length]
  exact ⟨rfl, rfl⟩

theorem deliver_snd {id : RequestId} {r : InFlight}
    (waiting : f.queue.inFlight.lookup id = some r) (peer : PeerId) (response : List δ) :
    (f.deliver id peer response).2 =
      match (f.accept r.range r.range.start response).2 with
      | some reason => .rejected (f.accept r.range r.range.start response).1.length
        (response.length - (f.accept r.range r.range.start response).1.length) reason
      | none => .accepted (f.accept r.range r.range.start response).1.length := by
  have request : f.queue.take? id = some (r, _) := Queue.take?_eq_some.mpr ⟨waiting, rfl⟩
  unfold deliver
  split <;> rename_i taken
  · cases taken.symm.trans request
  · cases taken.symm.trans request
    rfl

/-- Nothing is stored for what a peer was asked for. -/
theorem Aligned.stored?_eq_none (h : Aligned headers kept f) {id : RequestId} {r : InFlight}
    (waiting : f.queue.inFlight.lookup id = some r) {p : Nat} (inside : r.range.contains p) :
    f.stored? p = none := by
  obtain ⟨taken, balanced⟩ := h.custody
  have balanced := Bench.balanced_take balanced (Queue.take?_eq_some.mpr ⟨waiting, rfl⟩)
  obtain ⟨stored, placed, next, perm⟩ := h.placed
  obtain ⟨first, last⟩ := (r.range.contains_iff p).mp inside
  have unreleased : stored.length ≤ p := next ▸ balanced.unreleased first last
  refine Option.eq_none_iff_forall_not_mem.mpr fun x found => ?_
  rcases List.mem_append.mp (perm.mem_iff.mp (h.stored?_eq_some.mp found)) with released | waits
  · have beyond := (Positioned.mem_numbered.mp released).2
    rw [List.getElem?_eq_none (by omega)] at beyond
    cases beyond
  · exact (balanced.free first last).1 (List.mem_map_of_mem waits)

theorem Aligned.deliver_kept (h : Aligned headers kept f) (fresh : f.queue.Fresh) {id : RequestId}
    {r : InFlight} (waiting : f.queue.inFlight.lookup id = some r) (peer : PeerId)
    (response : List δ) :
    Kept f id peer response r (fitting (askedIn δ headers r.range) response)
      (f.deliver id peer response).1 (f.deliver id peer response).2 := by
  obtain ⟨-, delivered⟩ := aligned_deliver h id peer response
  obtain ⟨taken, balanced⟩ := h.custody
  have balanced := Bench.balanced_take balanced (Queue.take?_eq_some.mpr ⟨waiting, rfl⟩)
  obtain ⟨accepted, faulty⟩ := h.accepts r.range response
  obtain ⟨fewer, part⟩ := fitting_le (askedIn δ headers r.range) response
  rw [h.length_askedIn waiting] at fewer
  obtain ⟨inFlight, pending⟩ := queue_deliver waiting peer response
  have verdict := deliver_snd waiting peer response
  have keeps : f.keeps id peer response = Positioned.numbered r.range.start
      ((f.accept r.range r.range.start response).1.map fun item => (item, peer)) := by
    simp only [BlockFetch.keeps, waiting]
  generalize fitting (askedIn δ headers r.range) response = m at accepted faulty fewer part ⊢
  generalize f.accept r.range r.range.start response = judged at *
  obtain ⟨items, fault⟩ := judged
  obtain rfl : items = response.take m := accepted
  have length : (response.take m).length = m := List.length_take_of_le part
  have within : ((response.take m).take r.range.count).length = m := by
    rw [List.length_take, length, Nat.min_eq_right fewer]
  simp only [within] at pending
  simp only [length] at verdict
  have faultless : fault.isSome ↔ m ≠ response.length := faulty.trans (by omega)
  refine ⟨fun p inside => ?free, fun p => ?stored, fun index header hi he => ?empty, inFlight,
    ?rest, fun all => ?accepted, fun short => ?rejected⟩
  case free => exact h.stored?_eq_none waiting inside
  case stored =>
    ext x
    rw [delivered.stored?_eq_some, List.mem_append, keeps, Positioned.mem_numbered,
      List.getElem?_map, List.getElem?_take]
    by_cases inside : r.range.start ≤ p ∧ p < r.range.start + m
    · have unstored : f.stored? p = none := h.stored?_eq_none waiting
        ((r.range.contains_iff p).mpr ⟨inside.1, by omega⟩)
      have absent : (p, x) ∉ kept := by simp [← h.stored?_eq_some, unstored]
      rw [if_pos inside, if_pos (by omega), or_iff_right absent, and_iff_right inside.1]
    · rw [if_neg inside, h.stored?_eq_some, or_iff_left]
      rintro ⟨first, found⟩
      rw [if_neg (by omega)] at found
      cases found
  case empty =>
    obtain ⟨stored, placed, -⟩ := delivered.placed
    rw [h.headers_eq, ← delivered.headers_eq] at hi
    exact placed.known index header hi he
  case rest =>
    let failedBy := if fault.isSome || m == 0 then r.failedBy.insert r.peer else r.failedBy
    have unfailed : r.peer ∉ r.failedBy := fresh id r waiting
    refine ⟨failedBy, ?_, ?_, fun other differs => ?_⟩
    · rw [pending]
      rcases Nat.eq_or_lt_of_le fewer with all | short
      · rw [if_pos (by omega), if_neg (by omega), List.nil_append]
      · rw [if_neg (by omega), if_pos short]
        exact Positioned.insert_perm (balanced.free (Nat.le_add_right ..) (by omega)).2
    · have barred : (fault.isSome || m == 0) = true ↔ m ≠ response.length ∨ m = 0 := by
        rw [Bool.or_eq_true, faultless, beq_iff_eq]
      dsimp only [failedBy]
      rw [← barred]
      split
      · exact iff_of_true List.mem_insert_self ‹_›
      · exact iff_of_false unfailed ‹_›
    · dsimp only [failedBy]
      split
      · simp [differs]
      · rfl
  case accepted =>
    obtain rfl : fault = none := by simpa using mt faultless.mp (not_not.mpr all)
    exact verdict
  case rejected =>
    obtain ⟨reason, rfl⟩ := Option.isSome_iff_exists.mp (faultless.mpr short)
    exact ⟨reason, verdict⟩

theorem filterMap_range'_getElem? {α : Type} (l : List α) (start count : Nat) :
    (List.range' start count).filterMap (l[·]?) = (l.drop start).take count := by
  induction count generalizing start with
  | zero => simp
  | succ count ih =>
    rw [List.range'_succ, List.filterMap_cons, ih]
    cases found : l[start]? with
    | none =>
      have beyond := List.getElem?_eq_none_iff.mp found
      rw [List.drop_eq_nil_of_le beyond, List.drop_eq_nil_of_le (by omega)]
      simp
    | some a =>
      obtain ⟨inside, rfl⟩ := List.getElem?_eq_some_iff.mp found
      rw [List.drop_eq_getElem_cons inside, List.take_succ_cons]

theorem Aligned.requestFor_eq (h : Aligned headers kept f) (range : Range) :
    f.requestFor range = BlockData.request δ ((askedIn δ headers range).map Header.hash) := by
  have hashes : (fun p => (f.headerAt? p).map Header.hash) =
      fun p => (((sought δ headers).map Header.hash)[p]?) := by
    funext p
    rw [h.headerAt?_eq, List.getElem?_map]
  rw [requestFor, hashes, Range.positions, filterMap_range'_getElem?, askedIn, List.map_take,
    List.map_drop]

section Desk

variable {σ : Type} {d : Desk σ (BlockFetch δ)}

theorem fresh_apply (h : d.task.queue.Fresh) (m : Move) : (d.apply m).task.queue.Fresh := by
  cases m with
  | reserve peer capacity live =>
    simp only [Desk.apply]
    cases reserved : Workload.reserve d.task peer capacity live with
    | none => exact h
    | some x =>
      obtain ⟨id, range, queue, handed, -, same⟩ := reserve_eq_some reserved
      simp only [same]
      exact h.reserve handed
  | deliver id peer payload => exact h.sheds (d.task.sheds_deliver id peer _).1
  | fail id =>
    simp only [Desk.apply, Workload.fail, fail]
    split
    · exact h.sheds (Queue.sheds_fail ‹_›).1
    · exact h
  | failPeer peer => exact h.sheds (d.task.queue.sheds_failPeer peer)

/-- Whatever became of a fetch, an answer that is waited for was asked for by the hashes of the
wanted headers that its range numbers. Of its items the longest part from the front on that fits
these headers, item by item, is stored, and no other; the rest of the range waits. An answer that is
not waited for changes nothing. -/
theorem answer_is_kept_as_far_as_it_fits [LawfulBlockData δ] (session size : Nat)
    (headers : List Header) (before : SyncProgress) (store : σ) (moves : List Move)
    (id : RequestId) (peer : PeerId) (payload : Payload) :
    let d := (opening δ session size headers before store).run moves
    let response : List δ := BlockData.ofPayload payload
    let g := (d.task.deliver id peer response).1
    let verdict := (d.task.deliver id peer response).2
    (∀ r, d.task.queue.inFlight.lookup id = some r →
      let hs := askedIn δ headers r.range
      Asking.asks d.task id = some (r.peer, BlockData.request δ (hs.map Header.hash)) ∧
      0 < r.range.count ∧ hs.length = r.range.count ∧
      ∃ m, IsGreatest {k | k ≤ hs.length ∧ Fits (hs.take k) (response.take k)} m ∧
        Kept d.task id peer response r m g verdict) ∧
    (d.task.queue.inFlight.lookup id = none →
      verdict = .stale response.length ∧ g = d.task ∧ d.apply (.deliver id peer payload) = d) := by
  intro d response g verdict
  have aligned := aligned_run (opening_aligned (δ := δ) session size headers before store) moves
  have fresh : d.task.queue.Fresh := by
    refine Desk.run_invariant (P := fun d : Desk σ (BlockFetch δ) => d.task.queue.Fresh) (fun id r asked => ?_)
      fun d m _ h => fresh_apply h m
    cases asked
  refine ⟨fun r waiting => ⟨?_, (aligned.within waiting).1, aligned.length_askedIn waiting, _,
    isGreatest_fitting _ response, aligned.deliver_kept fresh waiting peer response⟩,
    fun gone => ?_⟩
  · rw [← aligned.requestFor_eq]
    exact Option.map_eq_some_iff.mpr ⟨r, waiting, rfl⟩
  · have unasked : d.task.queue.take? id = none := by simp [Queue.take?, gone]
    have stale : d.task.deliver id peer response = (d.task, .stale response.length) := by
      simp only [deliver, unasked]
    refine ⟨congrArg Prod.snd stale, congrArg Prod.fst stale, ?_⟩
    simp only [Desk.apply, Receiver.deliver]
    rw [show d.task.deliver id peer (BlockData.ofPayload payload) = _ from stale, Nat.sub_self,
      LawfulBlockData.count_zero]

/-- A batch of two blocks between empty ones is answered with the first body twice, which counts for
the first block only. -/
theorem answer_is_kept_as_far_as_it_fits_repeated_body :
    let body (n : UInt8) : Body := ⟨[[n]], []⟩
    let header (n : UInt8) : Header :=
      { number := n.toUInt64, transactionsRoot := (body n).transactionsRoot }
    let headers : List Header := [{}, header 1, { number := 2 }, header 3]
    let d := (opening Body 7 4 headers {} ()).run [.reserve 1 8 [1, 2]]
    let r : InFlight := ⟨1, ⟨0, 2⟩, []⟩
    let out := d.task.deliver ⟨7, 0⟩ 1 [body 1, body 1]
    d.task.queue.inFlight.lookup ⟨7, 0⟩ = some r ∧
      IsGreatest {k | k ≤ 2 ∧ Fits ([header 1, header 3].take k) ([body 1, body 1].take k)} 1 ∧
      Kept d.task ⟨7, 0⟩ 1 [body 1, body 1] r 1 out.1 out.2 ∧
      out.1.queue.pending = [(1, ⟨1, [1]⟩)] := by
  intro body header headers d r out
  have waiting : d.task.queue.inFlight.lookup ⟨7, 0⟩ = some r := by decide +kernel
  have wanted : askedIn Body headers r.range = [header 1, header 3] := by decide +kernel
  have pending : out.1.queue.pending = [(1, ⟨1, [1]⟩)] := by decide +kernel
  have count : fitting [header 1, header 3] [body 1, body 1] = 1 := by decide +kernel
  obtain ⟨live, -⟩ := answer_is_kept_as_far_as_it_fits (δ := Body) 7 4 headers {} ()
    [.reserve 1 8 [1, 2]] ⟨7, 0⟩ 1 (.bodies [body 1, body 1])
  obtain ⟨-, -, -, m, most, kept⟩ := live r waiting
  rw [wanted] at most
  obtain rfl : m = 1 := (most.unique (isGreatest_fitting _ _)).trans count
  exact ⟨waiting, most, kept, pending⟩

end Desk

end BlockFetch
end ChainSync.Fetch
