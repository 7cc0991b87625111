import ChainSync.Proofs.Fetch.Steady
import ChainSync.Proofs.Headers.Fill
set_option autoImplicit false

/-!
What a fill is begun with, whatever the skeleton. Neither its anchors nor the pieces that its work
comes in change.
-/

namespace ChainSync.HeaderFill

open Fetch

/-- The rules, the anchors and the master that a fill began with, and its gaps. -/
structure Given (engine : Engine) (anchors : Positioned Header) (master : PeerId)
    (ranges : List Range) (f : HeaderFill) : Prop where
  engine_eq : f.engine = engine
  anchors_eq : f.anchors = anchors
  master_eq : f.master = master
  undivided : ∃ taken, Bench.Undivided ranges ⟨f.queue, taken⟩

variable {engine : Engine} {anchors : Positioned Header} {master : PeerId} {ranges : List Range}
  {f : HeaderFill}

theorem Given.requeue (h : f.Given engine anchors master ranges) {queue : Queue Header}
    (undivided : ∀ taken, Bench.Undivided ranges ⟨f.queue, taken⟩ →
      ∃ taken, Bench.Undivided ranges ⟨queue, taken⟩)
    (mismatches : List PeerId) :
    Given engine anchors master ranges { f with queue, mismatches } := by
  obtain ⟨taken, whole⟩ := h.undivided
  exact ⟨h.engine_eq, h.anchors_eq, h.master_eq, undivided taken whole⟩

theorem given_deliver (h : f.Given engine anchors master ranges) (id : RequestId) (peer : PeerId)
    (headers : List Header) : (f.deliver id peer headers).1.Given engine anchors master ranges := by
  rcases f.deliver_cases id peer headers with
    ⟨-, heq⟩ | ⟨r, queue, ht, ⟨mismatches, heq, -⟩ | ⟨mismatches, atFault, heq⟩ | ⟨heq, whole, -⟩⟩
  · rwa [heq]
  all_goals rw [heq]
  · exact h.requeue (fun taken undivided => ⟨_, Bench.undivided_take undivided ht⟩) mismatches
  · exact h.requeue (fun taken undivided => ⟨_, Bench.undivided_complete
      (Bench.undivided_take undivided ht) (.inl rfl) atFault⟩) mismatches
  · obtain ⟨taken, undivided⟩ := h.undivided
    exact ⟨h.engine_eq, h.anchors_eq, h.master_eq, taken, Bench.undivided_takeReady
      (Bench.undivided_complete (Bench.undivided_take undivided ht) (.inr whole) false)⟩

theorem lasting_given (σ : Type) (engine : Engine) (anchors : Positioned Header) (master : PeerId)
    (ranges : List Range) :
    Lasting σ fun f : HeaderFill => f.Given engine anchors master ranges where
  reserve h hr := by
    obtain ⟨id, range, queue, handed, -, rfl⟩ := reserve_eq_some hr
    exact h.requeue (fun taken undivided => ⟨_, Bench.undivided_reserve undivided handed⟩) _
  fail {f} id h := by
    simp only [Workload.fail, fail]
    split
    · rename_i hf
      exact h.requeue (fun taken undivided => ⟨_, Bench.undivided_fail undivided hf⟩) _
    · exact h
  failPeer {f} peer h :=
    h.requeue (fun taken undivided => ⟨_, Bench.undivided_failPeer undivided peer⟩) _
  deliver {f} board id peer payload h := given_deliver h id peer payload.headersOf
  current _ _ _ _ _ := rfl
  known f _ id peer payload := f.deliver_known id peer payload.headersOf

/-- The range of a request that was taken out is one of the gaps. -/
theorem Given.mem_ranges (h : f.Given engine anchors master ranges) {id : RequestId} {r : InFlight}
    {queue : Queue Header} (ht : f.queue.take? id = some (r, queue)) : r.range ∈ ranges := by
  obtain ⟨taken, undivided⟩ := h.undivided
  exact (Bench.undivided_take undivided ht).lots r.range
    (Bench.mem_lots.mpr (.inr ⟨(id, r), by simp, rfl⟩))

theorem pending_ofRanges {session : Nat} {splittable : Bool} {e : Nat × Pending}
    (he : e ∈ (Queue.ofRanges session ranges splittable : Queue Header).pending) :
    (⟨e.1, e.2.count⟩ : Range) ∈ ranges.filter (·.count > 0) := by
  rcases Positioned.mem_foldl_insert he with he | ⟨r, hr, rfl⟩
  · cases he
  · exact hr

section Start

variable {session : Nat} {origin : Header} {skeleton : List Header} {limit : Nat}

/-- Gaps without headers are no work. -/
theorem given_start (session : Nat) (origin : Header) (skeleton : List Header) (master : PeerId)
    (engine : Engine) (limit : Nat) :
    let f := start session origin skeleton master engine limit
    f.Given engine f.anchors master ((gaps origin.height skeleton).filter (·.count > 0)) := by
  refine ⟨rfl, rfl, rfl, [], rfl, fun r hr => ?_⟩
  rcases Bench.mem_lots.mp hr with ⟨e, he, rfl⟩ | ⟨e, he, -⟩
  · exact pending_ofRanges he
  · cases he

/-- The anchors are the origin and headers of the skeleton. -/
theorem mem_anchors_start {e : Nat × Header}
    (h : e ∈ (start session origin skeleton master engine limit).anchors) :
    e.2 ∈ origin :: skeleton := by
  rcases Positioned.mem_foldl_insert h with h | ⟨s, hs, rfl⟩
  · rw [List.mem_singleton.mp h]
    exact List.mem_cons_self ..
  · exact List.mem_cons_of_mem _ hs

end Start
end ChainSync.HeaderFill
