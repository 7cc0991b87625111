import ChainSync.Proofs.Fetch.Release
import ChainSync.Proofs.State.Accounts
set_option autoImplicit false

/-!
The life of a request. It is made under the next id and waited for until it is taken out, answered
or lost, whichever comes first. What comes in later for its id changes nothing.
-/

namespace ChainSync

namespace Fetch

/-- The requests that are waited for, each with who was asked, and where the ids go on. -/
structure Docket where
  session : Nat
  nextAttempt : Nat
  waiting : List (RequestId × PeerId)

/-- What keeps a docket of its requests. -/
class Docketed (τ : Type) where
  docket : τ → Docket

open Docketed (docket)

namespace Docket

def ids (d : Docket) : List RequestId := d.waiting.map Prod.fst

def nextId (d : Docket) : RequestId := ⟨d.session, d.nextAttempt⟩

def requestsOf (d : Docket) (peer : PeerId) : List RequestId :=
  (d.waiting.filter (·.2 == peer)).map Prod.fst

/-- A request is made of a peer. -/
def add (d : Docket) (peer : PeerId) : Docket :=
  { d with nextAttempt := d.nextAttempt + 1, waiting := d.waiting ++ [(d.nextId, peer)] }

/-- Requests are waited for no longer. -/
def without (d : Docket) (ids : List RequestId) : Docket :=
  { d with waiting := d.waiting.filter (·.1 ∉ ids) }

/-- The requests that are waited for before a call and not behind it. -/
def settled (before after : Docket) : List RequestId := before.ids.filter (· ∉ after.ids)

/-- What one call does, and the requests that it makes. -/
inductive Step (d : Docket) : List RequestId → Docket → Prop where
  | makes (peer : PeerId) : Step d [d.nextId] (d.add peer)
  | settles (ids : List RequestId) : Step d [] (d.without ids)

/-- Calls one after the other, with the requests that they make and those that they settle. -/
inductive Course : Docket → List RequestId → List RequestId → Docket → Prop where
  | idle (d : Docket) : Course d [] [] d
  | call {d d' d'' : Docket} {new made gone : List RequestId} (step : d.Step new d')
    (rest : Course d' made gone d'') : Course d (new ++ made) (d.settled d' ++ gone) d''

variable {first d d' d'' : Docket} {made made' gone gone' : List RequestId}

theorem without_nil (d : Docket) : d.without [] = d := by simp [without]

theorem without_without (d : Docket) (ids more : List RequestId) :
    (d.without ids).without more = d.without (ids ++ more) := by
  simp [without, List.filter_filter, Bool.and_comm]

theorem without_singleton (d : Docket) (id : RequestId) :
    d.without [id] = { d with waiting := d.waiting.filter (·.1 != id) } := by
  simp only [without, Docket.mk.injEq, true_and]
  exact List.filter_congr fun e _ => by by_cases h : e.1 = id <;> simp [h]

theorem ids_without (d : Docket) (ids : List RequestId) :
    (d.without ids).ids = d.ids.filter (· ∉ ids) := by
  simp only [Docket.ids, without, List.filter_map]
  rfl

theorem without_of_not_mem {id : RequestId} (h : id ∉ d.ids) : d.without [id] = d := by
  have other : ∀ e ∈ d.waiting, e.1 ∉ [id] := by
    intro e he same
    rw [List.mem_singleton] at same
    exact h (same ▸ List.mem_map_of_mem he)
  simp only [without, List.filter_eq_self.mpr fun e he => decide_eq_true (other e he)]

/-- Without the requests of a peer, those of the others are left. -/
theorem waiting_without_requestsOf (distinct : d.ids.Nodup) (peer : PeerId) :
    (d.without (d.requestsOf peer)).waiting = d.waiting.filter (·.2 != peer) := by
  refine List.filter_congr fun e he => ?_
  have own : e.1 ∈ d.requestsOf peer ↔ e.2 = peer := by
    simp only [requestsOf, List.mem_map, List.mem_filter, beq_iff_eq]
    constructor
    · rintro ⟨e', ⟨he', rfl⟩, same⟩
      rw [List.inj_on_of_nodup_map distinct he' he same]
    · exact fun own => ⟨e, ⟨he, own⟩, rfl⟩
  by_cases h : e.2 = peer <;> simp [own, h]

theorem Course.trans (h : Course d made gone d') (h' : Course d' made' gone' d'') :
    Course d (made ++ made') (gone ++ gone') d'' := by
  induction h with
  | idle => exact h'
  | call step _ ih =>
    rw [List.append_assoc, List.append_assoc]
    exact .call step (ih h')

/-- The requests made since the docket was at `first`: their ids count on from there, and each is
either settled or waited for, once. -/
structure Accounted (first : Docket) (made gone : List RequestId) (d : Docket) : Prop where
  session : d.session = first.session
  next : d.nextAttempt = first.nextAttempt + made.length
  made_eq : made = (List.range' first.nextAttempt made.length).map (RequestId.mk first.session)
  once : (gone ++ d.ids).Perm made

theorem Accounted.session_made (h : Accounted first made gone d) {id : RequestId}
    (mem : id ∈ made) : id.session = first.session := by
  rw [h.made_eq] at mem
  obtain ⟨attempt, -, rfl⟩ := List.mem_map.mp mem
  rfl

theorem Accounted.ascending (h : Accounted first made gone d) :
    made.Pairwise fun id later => id.attempt < later.attempt := by
  rw [h.made_eq, List.pairwise_map]
  exact List.pairwise_lt_range'

theorem Accounted.nodup (h : Accounted first made gone d) : (gone ++ d.ids).Nodup := by
  refine h.once.nodup_iff.mpr (h.ascending.imp ?_)
  rintro id later lt rfl
  exact Nat.lt_irrefl _ lt

theorem Accounted.not_waiting (h : Accounted first made gone d) {id : RequestId} (mem : id ∈ gone) :
    id ∉ d.ids :=
  fun waiting => (List.nodup_append.mp h.nodup).2.2 id mem id waiting rfl

theorem accounted_nil (idle : d.waiting = []) : Accounted d [] [] d :=
  ⟨rfl, rfl, rfl, by simp [ids, idle]⟩

theorem accounted_step (h : Accounted first made gone d) {new : List RequestId}
    (step : d.Step new d') : Accounted first (made ++ new) (gone ++ d.settled d') d' := by
  cases step with
  | makes peer =>
    have ids : (d.add peer).ids = d.ids ++ [d.nextId] := by simp [Docket.ids, add]
    have kept : d.settled (d.add peer) = [] := by simp +contextual [settled, ids]
    have next : d.nextId = ⟨first.session, first.nextAttempt + made.length⟩ := by
      rw [nextId, h.session, h.next]
    -- a request that is made is waited for, so nothing is settled
    refine ⟨h.session, ?_, ?_, ?_⟩
    · simp [add, h.next, Nat.add_assoc]
    · rw [List.length_append, List.length_singleton, List.range'_concat, List.map_append,
        ← h.made_eq, next]
      simp
    · rw [kept, List.append_nil, ids, ← List.append_assoc]
      exact h.once.append_right _
  | settles out =>
    have split : (d.settled (d.without out) ++ (d.without out).ids).Perm d.ids := by
      have left : d.settled (d.without out) = d.ids.filter (· ∈ out) := by
        refine List.filter_congr fun id mem => ?_
        simp [ids_without, mem]
      rw [left, ids_without]
      simpa using List.filter_append_perm (· ∈ out) d.ids
    refine ⟨h.session, ?_, ?_, ?_⟩
    · rw [List.append_nil]
      exact h.next
    · rw [List.append_nil]
      exact h.made_eq
    · rw [List.append_nil, List.append_assoc]
      exact (split.append_left gone).trans h.once

theorem Course.accounted (run : Course d made' gone' d') (h : Accounted first made gone d) :
    Accounted first (made ++ made') (gone ++ gone') d' := by
  induction run generalizing made gone with
  | idle => simpa using h
  | call step _ ih =>
    rw [← List.append_assoc, ← List.append_assoc]
    exact ih (accounted_step h step)

/-- What was settled is not waited for again. -/
theorem Course.not_waiting (run : Course d made gone d') (later : Course d' made' gone' d'')
    (idle : d.waiting = []) {id : RequestId} (mem : id ∈ gone) : id ∉ d''.ids :=
  ((run.trans later).accounted (accounted_nil idle)).not_waiting
    (List.mem_append_right _ (List.mem_append_left _ mem))

theorem Course.lost (run : Course d made gone d') (idle : d.waiting = []) (peer : PeerId) :
    (d'.without (d'.requestsOf peer)).waiting = d'.waiting.filter (·.2 != peer) :=
  waiting_without_requestsOf
    (List.nodup_append.mp (run.accounted (accounted_nil idle)).nodup).2.1 peer

end Docket

namespace Queue

variable {α : Type} {q q' : Queue α} {id : RequestId}

instance : Docketed (Queue α) where
  docket q := ⟨q.session, q.nextAttempt, q.inFlight.map fun e => (e.1, e.2.peer)⟩

theorem ids_docket (q : Queue α) : (docket q).ids = q.inFlight.map Prod.fst := by
  simp [docket, Docket.ids]

theorem requestsOf_docket (q : Queue α) (peer : PeerId) :
    (docket q).requestsOf peer = q.requestsOf peer := by
  simp only [docket, Docket.requestsOf, Queue.requestsOf, List.filter_map, List.map_map]
  rfl

theorem take?_eq_none : q.take? id = none ↔ id ∉ (docket q).ids := by
  rw [ids_docket, take?, Option.map_eq_none_iff, Keyed.lookup_eq_none_iff]

theorem fail?_eq_none : q.fail? id = none ↔ id ∉ (docket q).ids := by
  rw [fail?, Option.map_eq_none_iff, take?_eq_none]

theorem docket_reserve {peer : PeerId} {capacity : Nat} {live : List PeerId} {range : Range}
    (handed : q.reserve peer capacity live = some (id, range, q')) :
    id = (docket q).nextId ∧ docket q' = (docket q).add peer := by
  obtain ⟨batch, failedBy, -, -, -, -, rfl, rfl⟩ := reserve_eq_some handed
  simp [docket, Docket.add, Docket.nextId]

theorem docket_take {r : InFlight} (taken : q.take? id = some (r, q')) :
    docket q' = (docket q).without [id] := by
  obtain ⟨-, rfl⟩ := take?_eq_some.mp taken
  simp only [docket, Docket.without_singleton, List.filter_map]
  rfl

theorem docket_complete (q : Queue α) (r : InFlight) (items : List α) (atFault : Bool) :
    docket (q.complete r items atFault) = docket q := by
  obtain ⟨failedBy, heq⟩ := q.complete_eq r items atFault
  rw [heq, requeue_eq]
  rfl

theorem docket_fail {r : InFlight} (lost : q.fail? id = some (r, q')) :
    docket q' = (docket q).without [id] := by
  rw [fail?_eq, Option.map_eq_some_iff] at lost
  obtain ⟨⟨r, taken⟩, ht, heq⟩ := lost
  cases heq
  rw [docket_complete, docket_take ht]

/-- A request that is lost is waited for no longer; one that is not there leaves all as it is. -/
theorem fail?_cases (q : Queue α) (id : RequestId) :
    (∃ r q', q.fail? id = some (r, q') ∧ docket q' = (docket q).without [id]) ∨
      (q.fail? id = none ∧ docket q = (docket q).without [id]) := by
  cases lost : q.fail? id with
  | none => exact .inr ⟨rfl, (Docket.without_of_not_mem (fail?_eq_none.mp lost)).symm⟩
  | some x => exact .inl ⟨x.1, x.2, rfl, docket_fail lost⟩

theorem docket_failPeer (q : Queue α) (peer : PeerId) :
    (q.failPeer peer).1 = ((docket q).requestsOf peer).length ∧
      docket (q.failPeer peer).2 = (docket q).without ((docket q).requestsOf peer) := by
  rw [requestsOf_docket]
  refine ⟨rfl, ?_⟩
  unfold failPeer
  -- they are lost one after the other, but as they were before the first
  generalize q.requestsOf peer = ids
  induction ids generalizing q with
  | nil => exact ((docket q).without_nil).symm
  | cons id ids ih =>
    rw [List.foldl_cons, ih, ← List.singleton_append, ← Docket.without_without]
    rcases q.fail?_cases id with ⟨r, q', lost, left⟩ | ⟨lost, left⟩ <;> rw [lost, ← left]

end Queue

/-- A task that keeps its docket: it makes requests under the next ids, waits for each until it was
answered or lost, and is not moved by what comes in later. -/
class Settling (σ τ : Type) [Workload τ] [Receiver σ τ] [Docketed τ] : Prop where
  reserve : ∀ {t t' : τ} {peer : PeerId} {capacity : Nat} {live : List PeerId} {a : Assignment},
    Workload.reserve t peer capacity live = some (a, t') →
      a.id = (docket t).nextId ∧ docket t' = (docket t).add peer
  fail : ∀ (t : τ) (id : RequestId), docket (Workload.fail t id).2 = (docket t).without [id]
  fail_late : ∀ (t : τ) (id : RequestId), id ∉ (docket t).ids → Workload.fail t id = (false, t)
  failPeer : ∀ (t : τ) (peer : PeerId),
    (Workload.failPeer t peer).1 = ((docket t).requestsOf peer).length ∧
      docket (Workload.failPeer t peer).2 = (docket t).without ((docket t).requestsOf peer)
  deliver : ∀ (t : τ) (board : Board σ) (id : RequestId) (peer : PeerId) (payload : Payload),
    docket (Receiver.deliver t board id peer payload).1 = (docket t).without [id]
  deliver_late : ∀ (t : τ) (board : Board σ) (id : RequestId) (peer : PeerId) (payload : Payload),
    id ∉ (docket t).ids →
      ∃ items, Receiver.deliver t board id peer payload = (t, board, .ok (.stale items))

namespace Bench

variable {α : Type} {b : Bench α}

/-- The request that an operation makes, if it makes one. -/
def made (b : Bench α) : Op α → List RequestId
  | .reserve peer capacity live => ((b.queue.reserve peer capacity live).map (·.1)).toList
  | _ => []

def settled (b : Bench α) (op : Op α) : List RequestId :=
  (docket b.queue).settled (docket (b.apply op).queue)

theorem docket_apply (b : Bench α) (op : Op α) :
    (docket b.queue).Step (b.made op) (docket (b.apply op).queue) := by
  have rests : (docket b.queue).Step [] (docket b.queue) := by
    simpa only [Docket.without_nil] using Docket.Step.settles (d := docket b.queue) []
  cases op with
  | reserve peer capacity live =>
    cases handed : b.queue.reserve peer capacity live with
    | none => simpa only [made, apply, handed, Option.map_none, Option.toList_none] using rests
    | some x =>
      obtain ⟨id, next⟩ := Queue.docket_reserve handed
      simp only [made, apply, handed, next, Option.map_some, Option.toList_some, id]
      exact .makes peer
  | take id =>
    cases taken : b.queue.take? id with
    | none => simpa only [made, apply, taken] using rests
    | some x =>
      simp only [made, apply, taken, Queue.docket_take taken]
      exact .settles [id]
  | complete id items atFault =>
    cases found : b.taken.lookup id with
    | none => simpa only [made, apply, found] using rests
    | some r => simpa only [made, apply, found, Queue.docket_complete] using rests
  | fail id =>
    cases lost : b.queue.fail? id with
    | none => simpa only [made, apply, lost] using rests
    | some x =>
      simp only [made, apply, lost, Queue.docket_fail lost]
      exact .settles [id]
  | failPeer peer =>
    simp only [made, apply, (b.queue.docket_failPeer peer).2]
    exact .settles _
  | takeReady => exact rests

theorem docket_run (b : Bench α) (ops : List (Op α)) :
    (docket b.queue).Course (history made b ops) (history settled b ops)
      (docket (b.run ops).queue) := by
  induction ops generalizing b with
  | nil => exact .idle _
  | cons op ops ih => exact .call (b.docket_apply op) (ih (b.apply op))

/-- How the requests of a run end, and what is found of them later. -/
structure SettlesOnce (b : Bench α) (ops later : List (Op α)) : Prop where
  session : ∀ id ∈ history made b ops, id.session = b.queue.session
  ascending : (history made b ops).Pairwise fun id next => id.attempt < next.attempt
  nodup : (history settled b ops).Nodup
  whole : (history settled b ops ++ (docket (b.run ops).queue).ids).Perm (history made b ops)
  late : ∀ id ∈ history settled b ops,
    let c := (b.run ops).run later
    c.queue.take? id = none ∧ c.queue.fail? id = none ∧
      c.apply (.take id) = c ∧ c.apply (.fail id) = c
  lost : ∀ peer,
    let q := (b.run ops).queue
    (q.failPeer peer).1 = ((docket q).requestsOf peer).length ∧
      (docket (q.failPeer peer).2).waiting = (docket q).waiting.filter (·.2 != peer)

theorem settlesOnce (idle : b.queue.inFlight = []) (ops later : List (Op α)) :
    b.SettlesOnce ops later := by
  have empty : (docket b.queue).waiting = [] := by simp [docket, idle]
  have run := b.docket_run ops
  have accounted := run.accounted (Docket.accounted_nil empty)
  refine ⟨fun id => accounted.session_made, accounted.ascending,
    (List.nodup_append.mp accounted.nodup).1, accounted.once, fun id mem => ?_, fun peer => ?_⟩
  · have gone := run.not_waiting ((b.run ops).docket_run later) empty mem
    have untaken := Queue.take?_eq_none.mpr gone
    have unfailed := Queue.fail?_eq_none.mpr gone
    exact ⟨untaken, unfailed, by simp only [apply, untaken], by simp only [apply, unfailed]⟩
  · obtain ⟨count, left⟩ := (b.run ops).queue.docket_failPeer peer
    exact ⟨count, by rw [left, run.lost empty]⟩

end Bench

namespace Desk

variable {σ τ : Type} [Workload τ] [Receiver σ τ] [Docketed τ]

/-- The request that a call makes, if it makes one. -/
def made (d : Desk σ τ) : Move → List RequestId
  | .reserve peer capacity live =>
    ((Workload.reserve d.task peer capacity live).map (·.1.id)).toList
  | _ => []

def settled (d : Desk σ τ) (m : Move) : List RequestId :=
  (docket d.task).settled (docket (d.apply m).task)

theorem docket_apply [Settling σ τ] (d : Desk σ τ) (m : Move) :
    (docket d.task).Step (d.made m) (docket (d.apply m).task) := by
  cases m with
  | reserve peer capacity live =>
    cases handed : Workload.reserve d.task peer capacity live with
    | none =>
      simpa only [made, apply, handed, Option.map_none, Option.toList_none,
        Docket.without_nil] using Docket.Step.settles (d := docket d.task) []
    | some x =>
      obtain ⟨id, next⟩ := Settling.reserve (σ := σ) handed
      simp only [made, apply, handed, next, Option.map_some, Option.toList_some, id]
      exact .makes peer
  | deliver id peer payload =>
    have answered : docket (d.apply (.deliver id peer payload)).task =
        (docket d.task).without [id] := by
      rw [← Settling.deliver d.task d.board id peer payload, apply]
      split <;> rename_i heq <;> rw [heq]
    rw [answered]
    exact .settles [id]
  | fail id =>
    simp only [made, apply, Settling.fail (σ := σ)]
    exact .settles [id]
  | failPeer peer =>
    simp only [made, apply, (Settling.failPeer (σ := σ) d.task peer).2]
    exact .settles _

theorem docket_run [Settling σ τ] (d : Desk σ τ) (moves : List Move) :
    (docket d.task).Course (history made d moves) (history settled d moves)
      (docket (d.run moves).task) := by
  induction moves generalizing d with
  | nil => exact .idle _
  | cons m moves ih => exact .call (d.docket_apply m) (ih (d.apply m))

/-- How the requests of a run end, and what is found of them later. -/
structure SettlesOnce (d : Desk σ τ) (moves later : List Move) : Prop where
  session : ∀ id ∈ history made d moves, id.session = (docket d.task).session
  ascending : (history made d moves).Pairwise fun id next => id.attempt < next.attempt
  nodup : (history settled d moves).Nodup
  whole : (history settled d moves ++ (docket (d.run moves).task).ids).Perm (history made d moves)
  late : ∀ id ∈ history settled d moves,
    let e := (d.run moves).run later
    Workload.fail e.task id = (false, e.task) ∧ ∀ peer payload, ∃ items,
      Receiver.deliver e.task e.board id peer payload = (e.task, e.board, .ok (.stale items))
  lost : ∀ peer,
    let t := (d.run moves).task
    (Workload.failPeer t peer).1 = ((docket t).requestsOf peer).length ∧
      (docket (Workload.failPeer t peer).2).waiting = (docket t).waiting.filter (·.2 != peer)

theorem settlesOnce [Settling σ τ] {d : Desk σ τ} (idle : (docket d.task).waiting = [])
    (moves later : List Move) : d.SettlesOnce moves later := by
  have run := d.docket_run moves
  have accounted := run.accounted (Docket.accounted_nil idle)
  refine ⟨fun id => accounted.session_made, accounted.ascending,
    (List.nodup_append.mp accounted.nodup).1, accounted.once, fun id mem => ?_, fun peer => ?_⟩
  · have gone := run.not_waiting ((d.run moves).docket_run later) idle mem
    exact ⟨Settling.fail_late (σ := σ) _ id gone, fun peer payload =>
      Settling.deliver_late _ _ id peer payload gone⟩
  · obtain ⟨count, left⟩ := Settling.failPeer (σ := σ) (d.run moves).task peer
    exact ⟨count, by rw [left, run.lost idle]⟩

end Desk

namespace BlockFetch

variable {δ : Type} [BlockData δ]

instance : Docketed (BlockFetch δ) where
  docket f := docket f.queue

theorem docket_deliver (f : BlockFetch δ) (id : RequestId) (peer : PeerId) (response : List δ) :
    docket (f.deliver id peer response).1 = (docket f).without [id] := by
  rw [deliver_fst]
  unfold takeIn
  split
  · rename_i late
    exact (Docket.without_of_not_mem (Queue.take?_eq_none.mp late)).symm
  · rename_i r taken ht
    dsimp only
    generalize hleft : (taken.complete r _ _).takeReady = left
    have same : docket left.2 = (docket f.queue).without [id] := by
      rw [← hleft, ← Queue.docket_take ht, ← Queue.docket_complete taken r]
      rfl
    have placed := foldl_place_keeps { f with queue := left.2 } left.1
    change docket (BlockFetch.queue _) = _
    rw [placed.2.2]
    exact same

instance (σ : Type) [LawfulBlockData δ] : Settling σ (BlockFetch δ) where
  reserve h := by
    obtain ⟨id, range, queue, handed, rfl, rfl⟩ := reserve_eq_some h
    exact Queue.docket_reserve handed
  fail f id := by
    rcases f.queue.fail?_cases id with ⟨r, queue, lost, left⟩ | ⟨lost, left⟩ <;>
      simp only [Workload.fail, fail, lost] <;> exact left
  fail_late f id late := by
    simp only [Workload.fail, fail, Queue.fail?_eq_none.mpr late]
  failPeer f peer := f.queue.docket_failPeer peer
  deliver f _ id peer payload := docket_deliver f id peer _
  deliver_late f board id peer payload late := by
    refine ⟨(BlockData.ofPayload payload : List δ).length, ?_⟩
    simp only [Receiver.deliver, deliver, Queue.take?_eq_none.mpr late, Nat.sub_self,
      LawfulBlockData.count_zero]

end BlockFetch
end Fetch

open Fetch
open Docketed (docket)

namespace HeaderFill

instance : Docketed HeaderFill where
  docket f := docket f.queue

theorem docket_deliver (f : HeaderFill) (id : RequestId) (peer : PeerId) (headers : List Header) :
    docket (f.deliver id peer headers).1 = (docket f).without [id] := by
  rcases f.deliver_cases id peer headers with
    ⟨late, heq⟩ | ⟨r, queue, ht, ⟨mismatches, heq, -⟩ | ⟨mismatches, atFault, heq⟩ | ⟨heq, -⟩⟩
  all_goals rw [heq]
  · exact (Docket.without_of_not_mem (Queue.take?_eq_none.mp late)).symm
  · exact Queue.docket_take ht
  · exact (Queue.docket_complete queue r [] atFault).trans (Queue.docket_take ht)
  · exact (Queue.docket_complete queue r headers false).trans (Queue.docket_take ht)

instance (σ : Type) : Settling σ HeaderFill where
  reserve h := by
    obtain ⟨id, range, queue, handed, rfl, rfl⟩ := reserve_eq_some h
    exact Queue.docket_reserve handed
  fail f id := by
    rcases f.queue.fail?_cases id with ⟨r, queue, lost, left⟩ | ⟨lost, left⟩ <;>
      simp only [Workload.fail, fail, lost] <;> exact left
  fail_late f id late := by
    simp only [Workload.fail, fail, Queue.fail?_eq_none.mpr late]
  failPeer f peer := f.queue.docket_failPeer peer
  deliver f _ id peer payload := docket_deliver f id peer _
  deliver_late f board id peer payload late := by
    refine ⟨payload.headersOf.length, ?_⟩
    simp only [Receiver.deliver, deliver, Queue.take?_eq_none.mpr late, Nat.sub_self, Nat.add_zero]

end HeaderFill

namespace StateDownload

variable {σ : Type} [NodeStore σ] {d d' : StateDownload}

instance : Docketed StateDownload where
  docket d := ⟨d.session, d.nextAttempt, d.inFlight.map fun e => (e.1, e.2.1)⟩

theorem lookup_eq_none {id : RequestId} : d.inFlight.lookup id = none ↔ id ∉ (docket d).ids := by
  rw [Keyed.lookup_eq_none_iff]
  simp [docket, Docket.ids]

/-- A request that was taken out is waited for no longer, whatever becomes of its hashes. -/
theorem docket_taken {id : RequestId}
    (h : Still { d with inFlight := d.inFlight.filter (·.1 != id) } d') :
    docket d' = (docket d).without [id] := by
  simp only [docket, Docket.without_singleton, h.session, h.nextAttempt, h.inFlight,
    List.filter_map]
  rfl

theorem docket_fail (d : StateDownload) (id : RequestId) :
    docket (d.fail id).2 = (docket d).without [id] := by
  unfold fail
  split
  · rename_i late
    exact (Docket.without_of_not_mem (lookup_eq_none.mp late)).symm
  · exact docket_taken (still_requeueAll ..)

theorem docket_deliver (d : StateDownload) (store : σ) (id : RequestId) (peer : PeerId)
    (nodes : List Bytes) : docket (d.deliver store id peer nodes).1 = (docket d).without [id] := by
  unfold deliver
  split
  · rename_i late
    exact (Docket.without_of_not_mem (lookup_eq_none.mp late)).symm
  · rename_i requested _
    have taken := still_takeIn { d with inFlight := d.inFlight.filter (·.1 != id) } store requested
      0 0 nodes
    dsimp only
    split <;> rename_i heq <;> rw [heq] at taken
    · exact docket_taken taken
    · exact docket_taken (taken.trans (still_requeueAll ..))

theorem requestsOf_docket (d : StateDownload) (peer : PeerId) :
    (docket d).requestsOf peer = d.requestsOf peer := by
  simp only [docket, Docket.requestsOf, requestsOf, List.filter_map, List.map_map]
  rfl

theorem docket_failPeer (d : StateDownload) (peer : PeerId) :
    (d.failPeer peer).1 = ((docket d).requestsOf peer).length ∧
      docket (d.failPeer peer).2 = (docket d).without ((docket d).requestsOf peer) := by
  rw [requestsOf_docket]
  refine ⟨rfl, ?_⟩
  unfold failPeer
  generalize d.requestsOf peer = ids
  induction ids generalizing d with
  | nil => exact ((docket d).without_nil).symm
  | cons id ids ih =>
    rw [List.foldl_cons, ih, ← List.singleton_append, ← Docket.without_without, docket_fail]

instance : Settling σ StateDownload where
  reserve {d d' peer capacity live a} h := by
    change d.reserve peer capacity live = some (a, d') at h
    simp only [reserve] at h
    split at h
    · cases h
    · obtain ⟨rfl, rfl⟩ := Prod.mk.inj (Option.some_inj.mp h)
      simp [docket, Docket.add, Docket.nextId]
  fail := docket_fail
  fail_late d id late := by
    simp only [Workload.fail, fail, lookup_eq_none.mpr late]
  failPeer := docket_failPeer
  deliver d board id peer payload := docket_deliver d board.store id peer _
  deliver_late d board id peer payload late := by
    refine ⟨payload.nodesOf.length, ?_⟩
    simp only [Receiver.deliver, deliver, lookup_eq_none.mpr late]

end StateDownload

end ChainSync
