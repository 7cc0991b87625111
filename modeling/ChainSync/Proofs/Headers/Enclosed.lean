import ChainSync.Proofs.Headers.Disputes
set_option autoImplicit false

/-!
Where the work of a fill lies. A gap is given out, lost and put back as it was made, so that whoever
answers for one answers between the same two neighbours among the anchors.
-/

namespace ChainSync.HeaderFill

open Fetch

/-- A range is one of the gaps that a fill began with: it starts right above an anchor and ends at
the next one, and the fill has both. -/
structure Encloses (origin : Header) (skeleton : List Header) (f : HeaderFill) (range : Range) :
    Prop where
  original : range ∈ gaps origin.height skeleton
  anchored : ∃ before opening closing behind,
    origin :: skeleton = before ++ opening :: closing :: behind ∧
      range = ⟨opening.height + 1, closing.height - opening.height⟩ ∧
      f.anchors.get? (range.start - 1) = some opening ∧
      f.anchors.get? (range.stop - 1) = some closing

section Start

variable {origin : Header} {skeleton : List Header}
  (ascending : (origin :: skeleton).Pairwise (·.height < ·.height))
include ascending

/-- Where the heights ascend, no anchor takes the place of another. -/
theorem anchors_start (session : Nat) (master : PeerId) (engine : Engine) (limit : Nat) :
    (start session origin skeleton master engine limit).anchors =
      (origin :: skeleton).map fun h => (h.height, h) := by
  have placed := foldl_insert_settle (ascending.imp Nat.le_of_lt) [] (by simp)
  rwa [settle_of_ascending ascending] at placed

theorem encloses_of_gap {f : HeaderFill}
    (anchors : f.anchors = (origin :: skeleton).map fun h => (h.height, h)) {range : Range}
    (gap : range ∈ gaps origin.height skeleton) : f.Encloses origin skeleton range := by
  obtain ⟨before, opening, closing, behind, split, same⟩ := gap_between gap
  refine ⟨gap, before, opening, closing, behind, split, same, ?_, ?_⟩ <;>
    rw [anchors, get?_anchors ascending, split, same]
  · exact ⟨by simp, rfl⟩
  · have above : opening.height < closing.height := by
      rw [split, List.pairwise_append, List.pairwise_cons] at ascending
      exact ascending.2.1.1 closing (by simp)
    refine ⟨by simp, ?_⟩
    simp only [Range.stop]
    omega

end Start

/-- In every state that calls lead to, all that waits or is asked for lies between two neighbouring
anchors, as it did at the start: no answer, whether short, disputed, invalid or lost, cuts it or
moves it. So no answer finds an anchor missing; what ends a fill is the fault of its master. -/
theorem live_work_lies_between_anchors {σ : Type} (session : Nat) {origin : Header}
    {skeleton : List Header} (ascending : (origin :: skeleton).Pairwise (·.height < ·.height))
    (master : PeerId) (engine : Engine) (limit : Nat) (board : Board σ) (moves : List Move) :
    let d : Desk σ HeaderFill :=
      ⟨.start session origin skeleton master engine limit, board, none⟩
    let f := (d.run moves).task
    (∀ e ∈ f.queue.pending, f.Encloses origin skeleton ⟨e.1, e.2.count⟩) ∧
      (∀ e ∈ f.queue.inFlight, f.Encloses origin skeleton e.2.range) ∧
      ∀ id peer headers,
        (∀ range, (f.deliver id peer headers).2 ≠
          .error (.validationFailure .headers range none "fill batch has no anchor")) ∧
        ∀ err, (f.deliver id peer headers).2 = .error err →
          ∃ range reason, err = .peerFault master .headers range reason := by
  intro d f
  have begun := given_start session origin skeleton master engine limit
  have fenced := fenced_start session origin skeleton master engine limit
  have given : f.Given engine d.task.anchors master
      ((gaps origin.height skeleton).filter (·.count > 0)) :=
    Desk.run_invariant (P := fun d : Desk σ HeaderFill => d.task.Given _ _ _ _) begun fun d m _ h =>
      (lasting_given σ ..).apply h m
  have anchors : f.anchors = (origin :: skeleton).map fun h => (h.height, h) :=
    given.anchors_eq.trans (anchors_start ascending session master engine limit)
  obtain ⟨taken, undivided⟩ := given.undivided
  have enclosed : ∀ range ∈ Bench.lots (⟨f.queue, taken⟩ : Bench Header),
      f.Encloses origin skeleton range := fun range lot =>
    encloses_of_gap ascending anchors (List.mem_of_mem_filter (undivided.lots range lot))
  have blamed : ∀ id peer headers err, (f.deliver id peer headers).2 = .error err →
      ∃ range reason, err = .peerFault master .headers range reason := by
    intro id peer headers err failed
    rcases deliver_verdict given fenced id peer headers with
      ⟨-, -, ⟨-, range, reason, verdict⟩ | ⟨-, delivery, verdict⟩⟩ | ⟨-, -, delivery, verdict⟩ <;>
      rw [verdict] at failed <;> cases failed
    exact ⟨range, reason, rfl⟩
  refine ⟨fun e he => ?_, fun e he => ?_, fun id peer headers => ⟨fun range missing => ?_,
    blamed id peer headers⟩⟩
  · exact enclosed _ (Bench.mem_lots.mpr (.inl ⟨e, he, rfl⟩))
  · exact enclosed _ (Bench.mem_lots.mpr (.inr ⟨e, List.mem_append_left _ he, rfl⟩))
  · obtain ⟨_, _, other⟩ := blamed id peer headers _ missing
    cases other

/-- A short answer, an invalid one, a lost one and one that contradicts the skeleton leave both gaps
as they were, one asked for once more and one that waits. -/
theorem live_work_lies_between_anchors_after_failures :
    let middle : Header := { number := 2 }
    let last : Header := { number := 4 }
    let d : Desk Unit HeaderFill :=
      ⟨.start 7 {} [middle, last] 1 (.ethash 0) 3, ⟨{}, ()⟩, none⟩
    let moves : List Move :=
      [.reserve 2 8 [2, 3, 4, 5], .deliver ⟨7, 0⟩ 2 (.headers []),
       .reserve 3 8 [2, 3, 4, 5], .deliver ⟨7, 1⟩ 3 (.headers [{ number := 9 }]),
       .reserve 4 8 [2, 3, 4, 5], .fail ⟨7, 2⟩,
       .reserve 2 8 [2, 3, 4, 5], .deliver ⟨7, 3⟩ 2 (.headers [{ number := 3 }]),
       .reserve 5 1 [2, 3, 4, 5]]
    let f := (d.run moves).task
    ([{}, middle, last] : List Header).Pairwise (·.height < ·.height) ∧
      f.queue.pending = [(3, ⟨2, [2]⟩)] ∧
      f.queue.inFlight = [(⟨7, 4⟩, ⟨5, ⟨1, 2⟩, [4, 3, 2]⟩)] ∧ f.mismatches = [2] ∧
      f.Encloses {} [middle, last] ⟨1, 2⟩ ∧ f.Encloses {} [middle, last] ⟨3, 2⟩ := by
  intro middle last d moves f
  have ascending : ([{}, middle, last] : List Header).Pairwise (·.height < ·.height) := by decide
  obtain ⟨waits, asked, disputed⟩ : f.queue.pending = [(3, ⟨2, [2]⟩)] ∧
      f.queue.inFlight = [(⟨7, 4⟩, ⟨5, ⟨1, 2⟩, [4, 3, 2]⟩)] ∧ f.mismatches = [2] := by
    decide +kernel
  obtain ⟨pending, inFlight, -⟩ :=
    live_work_lies_between_anchors 7 ascending 1 (.ethash 0) 3 (⟨{}, ()⟩ : Board Unit) moves
  refine ⟨ascending, waits, asked, disputed, ?_, ?_⟩
  · exact inFlight (⟨7, 4⟩, ⟨5, ⟨1, 2⟩, [4, 3, 2]⟩) (by rw [asked]; exact List.mem_cons_self ..)
  · exact pending (3, ⟨2, [2]⟩) (by rw [waits]; exact List.mem_cons_self ..)

end ChainSync.HeaderFill
