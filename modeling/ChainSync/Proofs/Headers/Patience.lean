import Mathlib.Algebra.Group.Action.Defs
import Mathlib.Algebra.Order.BigOperators.Group.Multiset
import Mathlib.Algebra.Order.Ring.Nat
import ChainSync.Proofs.Fetch.Exclusion
import ChainSync.Proofs.Fetch.Notes
import ChainSync.Proofs.Headers.Disputes
set_option autoImplicit false

/-!
How long a fill bears with a skeleton that is contradicted. A contradiction is noted for its batch,
so that others are asked; but once everyone alive has failed a batch, its notes are forgotten and
the same peers are asked again. What ends this is blame, and for that enough peers must be there.
-/

namespace ChainSync
open Fetch
namespace HeaderFill

/-- What becomes of a batch. -/
inductive Mark where
  /-- It is handed to a peer that failed it before, as all of these did. -/
  | retried (live : List PeerId)
  | contradicted
  /-- It is lost, or answered with headers that do not fill it. -/
  | failed
  | filled
  deriving DecidableEq, Repr

/-- What an answer does to its batch. -/
def Mark.ofResult : Except SyncError Delivery → List Mark
  | .ok (.disputed ..) => [.contradicted]
  | .ok (.rejected ..) => [.failed]
  | .ok (.accepted n) => if n = 0 then [.failed] else [.filled]
  | .ok (.stale _) | .error _ => []

def Mark.isRetry : Mark → Bool
  | .retried _ => true
  | _ => false

/-- What a fill remembers: who failed each batch that is not filled, since it was last tried anew,
and who has contradicted the skeleton. -/
structure Memory where
  notes : Multiset (Finset PeerId)
  doubters : Finset PeerId

namespace Memory

/-- How a batch changes what is remembered while nobody is blamed. -/
inductive Step (master : PeerId) (limit : Nat) : Memory → Mark → Memory → Prop where
  | retried {failed doubters : Finset PeerId} {others : Multiset (Finset PeerId)} {peer : PeerId}
    {live : List PeerId} (again : peer ∈ failed) (all : ∀ other ∈ live, other ∈ failed) :
    Step master limit ⟨failed ::ₘ others, doubters⟩ (.retried live) ⟨∅ ::ₘ others, doubters⟩
  | contradicted {failed doubters : Finset PeerId} {others : Multiset (Finset PeerId)}
    {peer : PeerId} (fresh : peer ∉ failed) (other : peer ≠ master)
    (few : (insert peer doubters).card < limit) :
    Step master limit ⟨failed ::ₘ others, doubters⟩ .contradicted
      ⟨insert peer failed ::ₘ others, insert peer doubters⟩
  | failed {failed doubters : Finset PeerId} {others : Multiset (Finset PeerId)} (peer : PeerId) :
    Step master limit ⟨failed ::ₘ others, doubters⟩ .failed
      ⟨insert peer failed ::ₘ others, doubters⟩
  | filled {failed doubters : Finset PeerId} {others : Multiset (Finset PeerId)} :
    Step master limit ⟨failed ::ₘ others, doubters⟩ .filled ⟨others, doubters⟩

inductive Course (master : PeerId) (limit : Nat) : Memory → List Mark → Memory → Prop where
  | nil (m : Memory) : Course master limit m [] m
  | cons {m m' m'' : Memory} {mark : Mark} {marks : List Mark} (step : Step master limit m mark m')
    (rest : Course master limit m' marks m'') : Course master limit m (mark :: marks) m''

/-- The doubters are too few to blame the master. -/
structure Bounded (master : PeerId) (limit : Nat) (m : Memory) : Prop where
  few : m.doubters.card ≤ limit - 1
  trusting : master ∉ m.doubters

/-- The failures of doubters that are remembered. -/
def doubts (m : Memory) : Nat := (m.notes.map fun failed => (failed ∩ m.doubters).card).sum

/-- The failures of others that are remembered. -/
def lapses (m : Memory) : Nat := (m.notes.map fun failed => (failed \ m.doubters).card).sum

variable {master : PeerId} {limit : Nat} {m m' : Memory} {mark : Mark} {marks : List Mark}

theorem Course.trans {m'' : Memory} {more : List Mark} (h : Course master limit m marks m')
    (h' : Course master limit m' more m'') : Course master limit m (marks ++ more) m'' := by
  induction h with
  | nil => exact h'
  | cons step _ ih => exact .cons step (ih h')

theorem Step.bounded (step : Step master limit m mark m') (h : m.Bounded master limit) :
    m'.Bounded master limit := by
  cases step with
  | retried | failed | filled => exact ⟨h.few, h.trusting⟩
  | contradicted fresh other few =>
    refine ⟨Nat.le_sub_one_of_lt few, ?_⟩
    rw [Finset.mem_insert, not_or]
    exact ⟨other.symm, h.trusting⟩

theorem Bounded.inter_le (h : m.Bounded master limit) (failed : Finset PeerId) :
    (failed ∩ m.doubters).card ≤ limit - 1 :=
  (Finset.card_le_card Finset.inter_subset_right).trans h.few

theorem Bounded.doubts_le (h : m.Bounded master limit) :
    m.doubts ≤ (limit - 1) * Multiset.card m.notes := by
  have each : ∀ x ∈ m.notes.map fun failed => (failed ∩ m.doubters).card, x ≤ limit - 1 := by
    intro x hx
    obtain ⟨failed, -, rfl⟩ := Multiset.mem_map.mp hx
    exact h.inter_le failed
  have bound := Multiset.sum_le_card_nsmul _ _ each
  rw [Multiset.card_map, smul_eq_mul] at bound
  rwa [Nat.mul_comm]

/-- A contradiction is remembered until the batch is filled or tried anew, and each batch carries
fewer of them than it takes to blame the master. -/
theorem Step.doubts_le (step : Step master limit m mark m') (h : m.Bounded master limit) :
    [mark].count .contradicted + (limit - 1) * Multiset.card m'.notes + m.doubts ≤
      m'.doubts + (limit - 1) * (Multiset.card m.notes + [mark].countP Mark.isRetry) := by
  cases step with
  | @retried failed doubters others peer live again all =>
    have forgotten := h.inter_le failed
    simp [doubts, Mark.isRetry, Nat.mul_add] at forgotten ⊢
    omega
  | @contradicted failed doubters others peer fresh other few =>
    have kept : (others.map fun failed => (failed ∩ doubters).card).sum ≤
        (others.map fun failed => (failed ∩ insert peer doubters).card).sum :=
      Multiset.sum_map_le_sum_map _ _ fun s _ =>
        Finset.card_le_card (Finset.inter_subset_inter_left (Finset.subset_insert ..))
    have noted : (failed ∩ doubters).card + 1 ≤
        (insert peer failed ∩ insert peer doubters).card := by
      rw [← Finset.insert_inter_distrib, Finset.card_insert_of_notMem (by simp [fresh])]
    simp only [doubts, Mark.isRetry, Multiset.map_cons, Multiset.sum_cons, Multiset.card_cons,
      List.count_singleton_self, List.countP_singleton, Bool.false_eq_true, if_false,
      Nat.add_zero] at kept ⊢
    omega
  | @failed failed doubters others peer =>
    have kept : (failed ∩ doubters).card ≤ (insert peer failed ∩ doubters).card :=
      Finset.card_le_card (Finset.inter_subset_inter_right (Finset.subset_insert ..))
    simp [doubts, Mark.isRetry] at kept ⊢
    omega
  | @filled failed doubters others =>
    have forgotten := h.inter_le failed
    simp [doubts, Mark.isRetry, Nat.mul_add] at forgotten ⊢
    omega

theorem Course.doubts_le (course : Course master limit m marks m') (h : m.Bounded master limit) :
    marks.count .contradicted + (limit - 1) * Multiset.card m'.notes + m.doubts ≤
      m'.doubts + (limit - 1) * (Multiset.card m.notes + marks.countP Mark.isRetry) := by
  induction course with
  | nil => simp; omega
  | @cons m m' m'' mark marks step _ ih =>
    have first := step.doubts_le h
    have later := ih (step.bounded h)
    rw [← List.singleton_append, List.count_append, List.countP_append]
    simp only [Nat.mul_add] at first later ⊢
    omega

theorem Course.bounded (course : Course master limit m marks m') (h : m.Bounded master limit) :
    m'.Bounded master limit := by
  induction course with
  | nil => exact h
  | cons step _ ih => exact ih (step.bounded h)

/-- Contradictions are at most as many as batches and retries allow. -/
theorem Course.contradicted_le (course : Course master limit m marks m')
    (h : m.Bounded master limit) :
    marks.count .contradicted ≤
      (limit - 1) * (Multiset.card m.notes + marks.countP Mark.isRetry) := by
  have all := course.doubts_le h
  have last := (course.bounded h).doubts_le
  omega

/-- Among enough peers one has not doubted the skeleton. -/
theorem Bounded.exists_trusting (h : m.Bounded master limit) {failed : Finset PeerId}
    {peer : PeerId} {live : List PeerId} (again : peer ∈ failed)
    (all : ∀ other ∈ live, other ∈ failed) (crowd : master ∈ live ∨ limit ≤ live.toFinset.card) :
    0 < (failed \ m.doubters).card := by
  have trusting : ∃ other ∈ failed, other ∉ m.doubters := by
    rcases crowd with present | enough
    · exact ⟨master, all master present, h.trusting⟩
    · have few := h.few
      by_cases none : limit = 0
      · have empty : m.doubters = ∅ := Finset.card_eq_zero.mp (by omega)
        exact ⟨peer, again, by simp [empty]⟩
      · obtain ⟨other, listed, trusting⟩ :=
          Finset.exists_mem_notMem_of_card_lt_card (s := m.doubters) (t := live.toFinset) (by omega)
        exact ⟨other, all other (List.mem_toFinset.mp listed), trusting⟩
  obtain ⟨other, mem, trusting⟩ := trusting
  exact Finset.card_pos.mpr ⟨other, Finset.mem_sdiff.mpr ⟨mem, trusting⟩⟩

/-- Enough live peers have failed a batch that is tried anew, and some of them without a doubt. -/
def Crowded (master : PeerId) (limit : Nat) (marks : List Mark) : Prop :=
  ∀ live, .retried live ∈ marks → master ∈ live ∨ limit ≤ live.toFinset.card

theorem Step.lapses_le (step : Step master limit m mark m') (h : m.Bounded master limit)
    (crowded : Crowded master limit [mark]) :
    [mark].countP Mark.isRetry + m'.lapses ≤ m.lapses + [mark].count .failed := by
  cases step with
  | @retried failed doubters others peer live again all =>
    have someone := h.exists_trusting again all (crowded live (List.mem_singleton_self _))
    simp [lapses, Mark.isRetry] at someone ⊢
    omega
  | @contradicted failed doubters others peer fresh other few =>
    have fewer : (others.map fun failed => (failed \ insert peer doubters).card).sum ≤
        (others.map fun failed => (failed \ doubters).card).sum :=
      Multiset.sum_map_le_sum_map _ _ fun s _ =>
        Finset.card_le_card (Finset.sdiff_subset_sdiff (Finset.Subset.refl _)
          (Finset.subset_insert ..))
    have own : (insert peer failed \ insert peer doubters).card ≤ (failed \ doubters).card := by
      refine Finset.card_le_card fun p hp => ?_
      simp only [Finset.mem_sdiff, Finset.mem_insert, not_or] at hp ⊢
      tauto
    simp [lapses, Mark.isRetry] at fewer own ⊢
    omega
  | @failed failed doubters others peer =>
    have one : (insert peer failed \ doubters).card ≤ (failed \ doubters).card + 1 := by
      refine (Finset.card_le_card ?_).trans (Finset.card_insert_le peer _)
      intro p hp
      simp only [Finset.mem_sdiff, Finset.mem_insert] at hp ⊢
      tauto
    simp [lapses, Mark.isRetry] at one ⊢
    omega
  | @filled failed doubters others =>
    simp [lapses, Mark.isRetry]

theorem Course.retries_le (course : Course master limit m marks m') (h : m.Bounded master limit)
    (crowded : Crowded master limit marks) :
    marks.countP Mark.isRetry + m'.lapses ≤ m.lapses + marks.count .failed := by
  induction course with
  | nil => simp
  | @cons m m' m'' mark marks step _ ih =>
    have first := step.lapses_le h fun live mem => crowded live (by simp_all)
    have later := ih (step.bounded h) fun live mem => crowded live (List.mem_cons_of_mem _ mem)
    rw [← List.singleton_append, List.count_append, List.countP_append]
    omega

end Memory

open Memory

def memory (f : HeaderFill) : Memory := ⟨f.queue.notes, f.mismatches.toFinset⟩

section Runs

variable {σ : Type} {d : Desk σ HeaderFill} {engine : Engine} {anchors : Positioned Header}
  {master : PeerId} {ranges : List Range} {limit : Nat} {peers : Finset PeerId}

/-- What a call does to the batches. -/
def marks (d : Desk σ HeaderFill) : Move → List Mark
  | .reserve peer _ live =>
    match d.task.queue.pending.find? (·.2.eligible peer live) with
    | some (_, batch) => if batch.failedBy.contains peer then [.retried live] else []
    | none => []
  | .deliver id peer payload => Mark.ofResult (d.task.deliver id peer payload.headersOf).2
  | .fail id => if (d.task.fail id).1 then [.failed] else []
  | .failPeer peer => (d.task.queue.requestsOf peer).map fun _ => .failed

theorem Memory.Course.single {m m' : Memory} {mark : Mark} (step : Step master limit m mark m') :
    Course master limit m [mark] m' := .cons step (.nil m')

theorem course_reserve (apart : d.task.queue.Apart) (peer : PeerId) (capacity : Nat)
    (live : List PeerId) :
    (d.apply (.reserve peer capacity live)).task.queue.Apart ∧
      Course master limit d.task.memory (marks d (.reserve peer capacity live))
        (d.apply (.reserve peer capacity live)).task.memory := by
  cases handed : d.task.queue.reserve peer capacity live with
  | none =>
    have nobody := List.find?_eq_none.mpr (Queue.reserve_eq_none_iff.mp handed)
    have same : d.apply (.reserve peer capacity live) = d := by
      simp only [Desk.apply, Workload.reserve, reserve, handed, Option.map_none]
    rw [same, marks, nobody]
    exact ⟨apart, .nil _⟩
  | some x =>
    obtain ⟨id, range, queue⟩ := x
    obtain ⟨after, batch, others, found, before, noted⟩ := Queue.apart_reserve apart handed
    have next : (d.apply (.reserve peer capacity live)).task = { d.task with queue } := by
      simp only [Desk.apply, Workload.reserve, reserve, handed, Option.map_some]
    rw [next, marks, found]
    refine ⟨after, ?_⟩
    rw [Pending.failedBy_retry] at noted
    simp only [memory, before, noted, List.contains_iff_mem]
    by_cases again : peer ∈ batch.failedBy
    · have eligible : batch.eligible peer live = true := by simpa using List.find?_some found
      have all := (Pending.eligible_iff.mp eligible).resolve_left (not_not_intro again)
      simp only [if_pos again, List.toFinset_nil]
      exact .single (.retried (List.mem_toFinset.mpr again) fun other listed =>
        List.mem_toFinset.mpr (all other listed))
    · simp only [if_neg again]
      exact .nil _

section Answers

variable {f : HeaderFill} {id : RequestId} {headers : List Header} {r : InFlight}
  {queue : Queue Header} {opening : Header} (apart : f.queue.Apart)
  (taken : f.queue.take? id = some (r, queue))
  (opened : f.anchors.get? (r.range.start - 1) = some opening)
include apart taken opened

theorem course_of_sound (sound : f.fault? r.range opening headers = none) :
    let out := f.deliver id r.peer headers
    out.1.queue.Apart ∧ Course master limit f.memory (Mark.ofResult out.2) out.1.memory := by
  obtain ⟨left, free, filled, fresh, before⟩ := Queue.apart_take apart taken
  by_cases whole : headers.length = r.range.count
  · rw [deliver_of_whole taken opened sound whole]
    obtain ⟨kept, same⟩ := Queue.apart_complete_whole left whole false
    refine ⟨(Queue.apart_takeReady kept).1, ?_⟩
    have done : memory (collect { f with queue := queue.complete r headers false }) =
        ⟨queue.notes, f.mismatches.toFinset⟩ := by
      rw [← same]
      rfl
    dsimp only
    rw [done, Mark.ofResult, if_neg (by omega), memory, before]
    exact .single .filled
  · rw [deliver_of_short taken opened sound whole]
    obtain ⟨requeued, after⟩ := Queue.apart_complete_nil left free filled false
    refine ⟨requeued, ?_⟩
    simp only [memory, before, after]
    exact .single (.failed r.peer)

theorem course_of_fault {fault : FillFault} (reckoned : f.Reckoned limit peers)
    (found : f.fault? r.range opening headers = some fault)
    (spared : ∀ err, (f.deliver id r.peer headers).2 ≠ .error err) :
    let out := f.deliver id r.peer headers
    out.1.queue.Apart ∧ Course f.master limit f.memory (Mark.ofResult out.2) out.1.memory := by
  obtain ⟨left, free, filled, fresh, before⟩ := Queue.apart_take apart taken
  obtain ⟨requeued, after⟩ := Queue.apart_complete_nil left free filled true
  by_cases against : fault.againstSkeleton = true
  · by_cases enough : f.Condemns r.peer
    · obtain ⟨reason, heq⟩ := deliver_of_condemned taken opened found against enough
      exact absurd (congrArg Prod.snd heq) (spared _)
    · rw [deliver_of_disputed taken opened found against enough]
      refine ⟨requeued, ?_⟩
      rw [reckoned.condemns_iff, not_or, Nat.not_le, ← reckoned.counted] at enough
      simp only [memory, before, after, toFinset_insert]
      exact .single
        (.contradicted (fun noted => fresh (List.mem_toFinset.mp noted)) enough.1 enough.2)
  · rw [deliver_of_rejected taken opened found (Bool.eq_false_iff.mpr against)]
    refine ⟨requeued, ?_⟩
    simp only [memory, before, after]
    exact .single (.failed r.peer)

end Answers

theorem course_deliver (given : d.task.Given engine anchors master ranges)
    (fenced : Fenced anchors ranges) (reckoned : d.task.Reckoned limit peers)
    (apart : d.task.queue.Apart) {id : RequestId} {peer : PeerId} {payload : Payload}
    (answered : ∀ r, d.task.queue.inFlight.lookup id = some r → r.peer = peer)
    (unblamed : (d.apply (.deliver id peer payload)).error = none) :
    (d.apply (.deliver id peer payload)).task.queue.Apart ∧
      Course master limit d.task.memory (marks d (.deliver id peer payload))
        (d.apply (.deliver id peer payload)).task.memory := by
  rw [task_apply_deliver, marks]
  cases taken : d.task.queue.take? id with
  | none =>
    rw [deliver, taken]
    exact ⟨apart, .nil _⟩
  | some x =>
    obtain ⟨r, queue⟩ := x
    obtain ⟨opening, opened, -⟩ := fenced.opens r.range (given.mem_ranges taken)
    rw [← given.anchors_eq] at opened
    obtain rfl := answered r (Queue.take?_eq_some.mp taken).1
    have spared : ∀ err, (d.task.deliver id r.peer payload.headersOf).2 ≠ .error err := by
      intro err failed
      have result : (Receiver.deliver d.task d.board id r.peer payload).2.2 = .error err := failed
      rw [Desk.apply] at unblamed
      split at unblamed <;> rename_i heq <;> rw [heq] at result <;> cases result
      cases unblamed
    cases found : d.task.fault? r.range opening payload.headersOf with
    | none => exact course_of_sound apart taken opened found
    | some fault =>
      have course := course_of_fault apart taken opened reckoned found spared
      rwa [given.master_eq] at course

theorem course_failPeer {queue : Queue Header} (apart : queue.Apart) (doubters : Finset PeerId)
    (peer : PeerId) :
    (queue.failPeer peer).2.Apart ∧ Course master limit ⟨queue.notes, doubters⟩
      ((queue.requestsOf peer).map fun _ => .failed) ⟨(queue.failPeer peer).2.notes, doubters⟩ := by
  have distinct : ((queue.inFlight.filter (·.2.peer == peer)).map Prod.fst).Nodup :=
    apart.ids.sublist (List.filter_sublist.map _)
  have asked : ∀ e ∈ queue.inFlight.filter (·.2.peer == peer), e ∈ queue.inFlight :=
    fun e he => List.mem_of_mem_filter he
  unfold Queue.failPeer Queue.requestsOf
  generalize queue.inFlight.filter (·.2.peer == peer) = es at distinct asked
  -- requests are lost one by one, and none of those still to come is touched
  induction es generalizing queue with
  | nil => exact ⟨apart, .nil _⟩
  | cons e es ih =>
    obtain ⟨id, r⟩ := e
    simp only [List.map_cons, List.nodup_cons, List.mem_cons, forall_eq_or_imp] at distinct asked
    obtain ⟨next, lost, left⟩ := Queue.fail?_of_mem apart.ids asked.1
    obtain ⟨kept, others, before, after⟩ := Queue.apart_fail apart lost
    have rest := ih kept distinct.2 fun e he => by
      have other : e.1 ≠ id := fun same => distinct.1 (same ▸ List.mem_map_of_mem he)
      rw [left]
      exact List.mem_filter.mpr ⟨asked.2 e he, bne_iff_ne.mpr other⟩
    simp only [List.map_cons, List.foldl_cons, lost] at rest ⊢
    refine ⟨rest.1, .cons ?_ rest.2⟩
    rw [before, after]
    exact .failed r.peer

/-- What a call does to the memory of a fill, unless it ends in blame. -/
theorem course_apply (given : d.task.Given engine anchors master ranges)
    (fenced : Fenced anchors ranges) (reckoned : d.task.Reckoned limit peers)
    (apart : d.task.queue.Apart) {m : Move}
    (answered : ∀ id peer payload, m = .deliver id peer payload →
      ∀ r, d.task.queue.inFlight.lookup id = some r → r.peer = peer)
    (unblamed : (d.apply m).error = none) :
    (d.apply m).task.queue.Apart ∧
      Course master limit d.task.memory (marks d m) (d.apply m).task.memory := by
  cases m with
  | reserve peer capacity live => exact course_reserve apart peer capacity live
  | deliver id peer payload =>
    exact course_deliver given fenced reckoned apart (answered id peer payload rfl) unblamed
  | fail id =>
    cases lost : d.task.queue.fail? id with
    | none =>
      have same : d.task.fail id = (false, d.task) := by rw [fail, lost]
      simp only [marks, Desk.apply, Workload.fail, same, Bool.false_eq_true, if_false]
      exact ⟨apart, .nil _⟩
    | some x =>
      obtain ⟨kept, others, before, after⟩ := Queue.apart_fail apart lost
      have next : d.task.fail id = (true, { d.task with queue := x.2 }) := by rw [fail, lost]
      simp only [marks, Desk.apply, Workload.fail, next, if_true, memory, before, after]
      exact ⟨kept, .single (.failed x.1.peer)⟩
  | failPeer peer => exact course_failPeer apart d.task.mismatches.toFinset peer

/-- Requests that a call answers for another peer than the one that was asked. -/
def strays (d : Desk σ HeaderFill) : Move → List InFlight
  | .deliver id peer _ => (d.task.queue.inFlight.lookup id).toList.filter (·.peer != peer)
  | _ => []

theorem course_run (given : d.task.Given engine anchors master ranges)
    (fenced : Fenced anchors ranges) (reckoned : d.task.Reckoned limit peers)
    (apart : d.task.queue.Apart) {moves : List Move}
    (answered : Desk.history strays d moves = []) (unblamed : (d.run moves).error = none) :
    Course master limit d.task.memory (Desk.history marks d moves) (d.run moves).task.memory := by
  induction moves generalizing d peers with
  | nil => exact .nil _
  | cons m moves ih =>
    obtain ⟨now, later⟩ := List.append_eq_nil_iff.mp answered
    obtain ⟨next, course⟩ := course_apply given fenced reckoned apart
      (fun id peer payload heq r asked => by simpa [heq, strays, asked] using now)
      (Desk.error_of_run unblamed)
    exact course.trans (ih ((lasting_given σ ..).apply given m)
      (reckoned_apply given fenced reckoned m) next later unblamed)

theorem length_gaps (previous : Nat) (skeleton : List Header) :
    (gaps previous skeleton).length = skeleton.length := by
  induction skeleton generalizing previous with
  | nil => rfl
  | cons s rest ih => rw [gaps, List.length_cons, List.length_cons, ih]

theorem mem_of_retried {moves : List Move} {live : List PeerId}
    (h : .retried live ∈ Desk.history marks d moves) :
    ∃ peer capacity, .reserve peer capacity live ∈ moves := by
  induction moves generalizing d with
  | nil => cases h
  | cons m moves ih =>
    rw [Desk.history, List.mem_append] at h
    rcases h with h | h
    · cases m with
      | reserve peer capacity listed =>
        simp only [marks] at h
        split at h
        · split at h
          · cases List.mem_singleton.mp h
            exact ⟨peer, capacity, List.mem_cons_self ..⟩
          · cases h
        · cases h
      | deliver id peer payload =>
        simp only [marks, Mark.ofResult] at h
        split at h
        any_goals split at h
        all_goals simp at h
      | fail id =>
        simp only [marks] at h
        split at h
        · cases List.mem_singleton.mp h
        · cases h
      | failPeer peer =>
        obtain ⟨id, -, heq⟩ := List.mem_map.mp h
        cases heq
    · obtain ⟨peer, capacity, mem⟩ := ih h
      exact ⟨peer, capacity, List.mem_cons_of_mem _ mem⟩

end Runs

/-- Until the master is blamed, contradictions are bounded by the batches of a skeleton and by how
often one of them was tried anew. With the master alive at each request, or as many peers as it
takes to blame it, they are bounded by the batches and by what else went wrong with them. -/
theorem contradictions_are_bounded {σ : Type} (session : Nat) (origin : Header)
    (skeleton : List Header) (master : PeerId) (engine : Engine) (limit : Nat) (board : Board σ)
    (moves : List Move) :
    let d : Desk σ HeaderFill :=
      ⟨.start session origin skeleton master engine limit, board, none⟩
    let seen := Desk.history marks d moves
    Desk.history strays d moves = [] → (d.run moves).error = none →
      seen.count .contradicted ≤ (limit - 1) * (skeleton.length + seen.countP Mark.isRetry) ∧
      ((∀ peer capacity live, .reserve peer capacity live ∈ moves →
          master ∈ live ∨ limit ≤ live.toFinset.card) →
        seen.count .contradicted ≤ (limit - 1) * (skeleton.length + seen.count .failed)) := by
  intro d seen answered unblamed
  obtain ⟨apart, n, few, blank⟩ := Queue.apart_ofRanges (α := Header) session
    (gaps origin.height skeleton)
  have reckoned : d.task.Reckoned limit ∅ := ⟨rfl, .nil, rfl⟩
  have course := course_run (given_start session origin skeleton master engine limit)
    (fenced_start session origin skeleton master engine limit) reckoned apart answered unblamed
  have begun : d.task.memory = ⟨Multiset.replicate n ∅, ∅⟩ := by
    rw [← blank]
    rfl
  rw [begun] at course
  have bounded : Bounded master limit ⟨Multiset.replicate n ∅, ∅⟩ :=
    ⟨Nat.zero_le _, Finset.notMem_empty _⟩
  have pieces : n ≤ skeleton.length := by
    rwa [length_gaps] at few
  have contradicted := course.contradicted_le bounded
  rw [Multiset.card_replicate] at contradicted
  refine ⟨contradicted.trans (Nat.mul_le_mul_left _ (Nat.add_le_add_right pieces _)),
    fun crowd => contradicted.trans (Nat.mul_le_mul_left _ (Nat.add_le_add pieces ?_))⟩
  have retries := course.retries_le bounded fun live mem => by
    obtain ⟨peer, capacity, reserved⟩ := mem_of_retried mem
    exact crowd peer capacity live reserved
  have blankLapses : lapses ⟨Multiset.replicate n ∅, ∅⟩ = 0 := by simp [lapses]
  rw [blankLapses, Nat.zero_add] at retries
  exact (Nat.le_add_right _ _).trans retries

/-- Of two peers one contradicts the skeleton, and the other has nothing: the first is asked
again. -/
theorem contradictions_are_bounded_two_peers :
    let d : Desk Unit HeaderFill :=
      ⟨.start 7 {} [{ number := 1, timestamp := 2 }] 1 (.ethash 0) 2, ⟨{}, ()⟩, none⟩
    let moves : List Move :=
      [.reserve 2 8 [2, 3], .deliver ⟨7, 0⟩ 2 (.headers [{ number := 1 }]), .reserve 3 8 [2, 3],
        .deliver ⟨7, 1⟩ 3 (.headers []), .reserve 2 8 [2, 3]]
    let seen := Desk.history marks d moves
    seen = [.contradicted, .failed, .retried [2, 3]] ∧
      seen.count .contradicted ≤ (2 - 1) * (1 + seen.count .failed) := by
  intro d moves seen
  have run : seen = [.contradicted, .failed, .retried [2, 3]] ∧
      Desk.history strays d moves = [] ∧ (d.run moves).error = none := by
    decide +kernel
  refine ⟨run.1, (contradictions_are_bounded 7 {} [{ number := 1, timestamp := 2 }] 1 (.ethash 0) 2
    (⟨{}, ()⟩ : Board Unit) moves run.2.1 run.2.2).2 ?_⟩
  intro peer capacity live mem
  simp only [moves, List.mem_cons, Move.reserve.injEq, reduceCtorEq, false_or, or_false,
    List.not_mem_nil] at mem
  rcases mem with ⟨-, -, rfl⟩ | ⟨-, -, rfl⟩ | ⟨-, -, rfl⟩ <;> exact .inr (by decide)

section Lone

/-- The header above the origin. -/
def loneChild : Header :=
  { number := 1, timestamp := 1
    parentHash := 0x700f4df9a77094c21ce453225cefb24eadb12af52492e88dbac6851d9c99946e#256 }

/-- A skeleton of one forged header, whose master has left. It takes two peers to blame it. -/
def loneFill : HeaderFill := .start 7 {} [{ number := 1, timestamp := 2 }] 1 (.ethash 0) 2

/-- The one peer there is, asked for the header above the origin and answering with it, again and
again. -/
def loneRounds (attempt : Nat) : Nat → List Move
  | 0 => []
  | n + 1 =>
    .reserve 2 8 [2] :: .deliver ⟨7, attempt⟩ 2 (.headers [loneChild]) ::
      loneRounds (attempt + 1) n

/-- The fill between rounds, with the peers that have contradicted it. -/
def loneTask (attempt : Nat) (peers : List PeerId) : HeaderFill :=
  { loneFill with
    queue := { loneFill.queue with nextAttempt := attempt, pending := [(1, ⟨1, peers⟩)] }
    mismatches := peers }

/-- The fill while the peer is asked. -/
def loneAsked (attempt : Nat) (peers : List PeerId) : HeaderFill :=
  { loneFill with
    queue := { loneFill.queue with
      nextAttempt := attempt + 1, pending := [], inFlight := [(⟨7, attempt⟩, ⟨2, ⟨1, 1⟩, []⟩)] }
    mismatches := peers }

variable (attempt : Nat) {peers : List PeerId} (seen : peers = [] ∨ peers = [2])
include seen

omit seen in
theorem lone_follows : (Engine.ethash 0).Follows {} loneChild := by decide +kernel

omit seen in
/-- The answer is valid, but it is not the header of the skeleton. -/
theorem lone_fault {f : HeaderFill} (engine : f.engine = .ethash 0)
    (anchors : f.anchors = loneFill.anchors) :
    f.fault? ⟨1, 1⟩ {} [loneChild] = some (.unmatched 1) := by
  have linked : [{}, loneChild].IsChain (Engine.ethash 0).Follows :=
    .cons_cons lone_follows (.singleton _)
  have sound : firstFault (.ethash 0) ⟨1, 1⟩ 1 {} [loneChild] = none :=
    firstFault_of_follows linked rfl (Nat.le_refl 2)
  have other : loneChild.hash ≠ Header.hash { number := 1, timestamp := 2 } := by decide +kernel
  have closing : loneFill.anchors.get? 1 = some { number := 1, timestamp := 2 } := rfl
  have differs : [loneChild].getLast?.map Header.hash ≠
      (loneFill.anchors.get? 1).map Header.hash := by
    rw [closing]
    exact fun same => other (Option.some_inj.mp same)
  rw [fault?, engine, sound, anchors]
  exact if_pos ⟨rfl, differs⟩

theorem lone_reserve : (loneTask attempt peers).reserve 2 8 [2] =
    some (⟨⟨7, attempt⟩, ⟨1, 1⟩, .headers (.range 1 1)⟩, loneAsked attempt peers) := by
  rcases seen with rfl | rfl <;> rfl

theorem lone_deliver : (loneAsked attempt peers).deliver ⟨7, attempt⟩ 2 [loneChild] =
    (loneTask (attempt + 1) [2], .ok (.disputed 1 (FillFault.unmatched 1).reason)) := by
  have taken : (loneAsked attempt peers).queue.take? ⟨7, attempt⟩ = some (⟨2, ⟨1, 1⟩, []⟩,
      { loneFill.queue with nextAttempt := attempt + 1, pending := [], inFlight := [] }) := by
    simp [Queue.take?, loneAsked]
  have opened : (loneAsked attempt peers).anchors.get? 0 = some {} := rfl
  have found := lone_fault (f := loneAsked attempt peers) rfl rfl
  have few : ¬ (loneAsked attempt peers).Condemns 2 := by
    rcases seen with rfl | rfl
    · exact (by decide : ¬ ((2 : PeerId) = 1 ∨ 2 ≤ (List.insert (2 : PeerId) []).length))
    · exact (by decide : ¬ ((2 : PeerId) = 1 ∨ 2 ≤ (List.insert (2 : PeerId) [2]).length))
  rw [deliver_of_disputed taken opened found rfl few]
  rcases seen with rfl | rfl <;> rfl

theorem lone_rounds (n : Nat) {d : Desk Unit HeaderFill} (task : d.task = loneTask attempt peers)
    (ok : d.error = none) :
    (Desk.history marks d (loneRounds attempt n)).count .contradicted = n ∧
      (d.run (loneRounds attempt n)).error = none ∧ ∃ peers, (peers = [] ∨ peers = [2]) ∧
        (d.run (loneRounds attempt n)).task = loneTask (attempt + n) peers := by
  induction n generalizing d attempt peers with
  | zero => exact ⟨rfl, ok, peers, seen, task⟩
  | succ n ih =>
    let asked := d.apply (.reserve 2 8 [2])
    let answered := asked.apply (.deliver ⟨7, attempt⟩ 2 (.headers [loneChild]))
    have handed : asked = { d with task := loneAsked attempt peers } := by
      simp only [asked, Desk.apply, Workload.reserve, task, lone_reserve _ seen]
    have disputed := lone_deliver attempt seen
    have next : answered.task = loneTask (attempt + 1) [2] := by
      simp only [answered, task_apply_deliver, handed, Payload.headersOf, disputed]
    have going : answered.error = none := by
      simp only [answered]
      rw [error_apply_deliver (d := asked) (by rw [handed, Payload.headersOf, disputed]), handed]
      exact ok
    obtain ⟨count, unblamed, peers', seen', last⟩ := ih (attempt + 1) (.inr rfl) next going
    refine ⟨?_, unblamed, peers', seen', ?_⟩
    · have now : marks asked (.deliver ⟨7, attempt⟩ 2 (.headers [loneChild])) =
          [.contradicted] := by
        simp only [marks, handed, Payload.headersOf, disputed, Mark.ofResult]
      have before : (marks d (.reserve 2 8 [2])).count .contradicted = 0 := by
        simp only [marks]
        split
        · split <;> rfl
        · rfl
      have all : Desk.history marks d (loneRounds attempt (n + 1)) =
          marks d (.reserve 2 8 [2]) ++
            (marks asked (.deliver ⟨7, attempt⟩ 2 (.headers [loneChild])) ++
              Desk.history marks answered (loneRounds (attempt + 1) n)) := rfl
      rw [all, List.count_append, List.count_append, before, now, count, List.count_singleton_self]
      omega
    · rw [Nat.add_right_comm] at last
      exact last

end Lone

/-- No number bounds the contradictions of a fill whose master has left. The one peer that is alive,
fewer than it takes to blame the master, is asked for the same headers without end, though it tells
the truth. -/
theorem contradictions_are_unbounded_without_a_crowd :
    (Engine.ethash 0).Follows {} loneChild ∧ ∀ n,
      let d : Desk Unit HeaderFill := ⟨loneFill, ⟨{}, ()⟩, none⟩
      let left := d.run (loneRounds 0 n)
      (Desk.history marks d (loneRounds 0 n)).count .contradicted = n ∧ left.error = none ∧
        left.task.isDone = false ∧
        (left.task.reserve 2 8 [2]).map (·.1) = some ⟨⟨7, n⟩, ⟨1, 1⟩, .headers (.range 1 1)⟩ := by
  refine ⟨lone_follows, fun n => ?_⟩
  intro d left
  obtain ⟨count, unblamed, peers, seen, last⟩ := lone_rounds 0 (.inl rfl) n (d := d) rfl rfl
  rw [Nat.zero_add] at last
  refine ⟨count, unblamed, ?_, ?_⟩
  · rw [last]
    rfl
  · rw [last, lone_reserve _ seen, Option.map_some]

end HeaderFill
end ChainSync
