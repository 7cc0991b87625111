import Mathlib.Data.Finset.Card
import ChainSync.Proofs.Headers.Blame
set_option autoImplicit false

/-!
When a skeleton is held against the master. An answer contradicts the skeleton if it does not meet
an anchor of its gap. For that the master answers if it contradicts itself, or as soon as enough
peers have contradicted it, wherever they did.
-/

namespace ChainSync

open Fetch

instance (engine : Engine) : DecidableRel engine.Follows := fun parent h =>
  inferInstanceAs (Decidable (engine.verifyHeader h parent = .ok ()))

/-- What a task keeps, it keeps over the calls of a desk. -/
theorem Fetch.Lasting.apply {σ τ : Type} [Workload τ] [Receiver σ τ] {P : τ → Prop}
    (lasting : Lasting σ P) {d : Desk σ τ} (h : P d.task) (m : Move) : P (d.apply m).task := by
  cases m with
  | reserve peer capacity live =>
    cases handed : Workload.reserve d.task peer capacity live with
    | none => simpa only [Desk.apply, handed] using h
    | some x => simpa only [Desk.apply, handed] using lasting.reserve h handed
  | deliver id peer payload =>
    have kept := lasting.deliver d.board id peer payload h
    simp only [Desk.apply]
    split <;> rename_i heq <;> rwa [heq] at kept
  | fail id => exact lasting.fail id h
  | failPeer peer => exact lasting.failPeer peer h

namespace HeaderFill

/-- The first header stands right above the anchor and names another parent. -/
def Unlinked (range : Range) (opening : Header) (headers : List Header) : Prop :=
  ∃ h ∈ headers.head?, h.height = range.start ∧ h.parentHash ≠ opening.hash

/-- Valid headers fill all of the range, up to another one than the anchor. -/
def Unmatched (engine : Engine) (range : Range) (opening closing : Header)
    (headers : List Header) : Prop :=
  headers.length = range.count ∧ (opening :: headers).IsChain engine.Follows ∧
    headers.getLast?.map Header.hash ≠ some closing.hash

/-- An answer to a live request contradicts one of the anchors of its range. -/
def AnchorFaulty (f : HeaderFill) (id : RequestId) (headers : List Header) : Prop :=
  ∃ r ∈ f.queue.inFlight.lookup id,
    ∃ opening ∈ f.anchors.get? (r.range.start - 1), ∃ closing ∈ f.anchors.get? (r.range.stop - 1),
      Unlinked r.range opening headers ∨ Unmatched f.engine r.range opening closing headers

instance (range : Range) (opening : Header) (headers : List Header) :
    Decidable (Unlinked range opening headers) :=
  inferInstanceAs (Decidable (∃ h ∈ headers.head?, _))

instance (engine : Engine) (range : Range) (opening closing : Header) (headers : List Header) :
    Decidable (Unmatched engine range opening closing headers) :=
  inferInstanceAs (Decidable (_ ∧ _))

instance (f : HeaderFill) (id : RequestId) (headers : List Header) :
    Decidable (f.AnchorFaulty id headers) :=
  inferInstanceAs (Decidable (∃ r ∈ f.queue.inFlight.lookup id, _))

section Faults

variable {engine : Engine} {range : Range} {opening closing : Header} {headers : List Header}
  {fault : FillFault}

/-- Behind the first header nothing is held against the anchor. -/
theorem own_fault_behind {expected : Nat} {previous : Header} (behind : range.start < expected)
    (found : firstFault engine range expected previous headers = some fault) :
    fault.againstSkeleton = false := by
  induction headers generalizing expected previous with
  | nil => cases found
  | cons h rest ih =>
    unfold firstFault at found
    split at found
    · cases found; rfl
    split at found
    · cases found; rfl
    split at found
    · omega
    split at found
    · cases found; rfl
    · exact ih (Nat.lt_succ_of_lt behind) found

theorem firstFault_of_unlinked (filled : 0 < range.count) (h : Unlinked range opening headers) :
    firstFault engine range range.start opening headers = some (.unlinked range.start) := by
  obtain ⟨first, mem, height, parent⟩ := h
  cases headers with
  | nil => cases mem
  | cons h rest =>
    obtain rfl : h = first := by simpa using mem
    have inside : ¬ range.start ≥ range.stop := by
      rw [Range.stop]
      omega
    rw [firstFault, if_neg inside, if_neg (by omega), if_pos ⟨rfl, parent⟩]

theorem unlinked_of_firstFault
    (found : firstFault engine range range.start opening headers = some fault)
    (against : fault.againstSkeleton = true) : Unlinked range opening headers := by
  cases headers with
  | nil => cases found
  | cons h rest =>
    unfold firstFault at found
    split at found
    · cases found; cases against
    split at found
    · cases found; cases against
    rename_i height
    split at found
    · rename_i other
      exact ⟨h, rfl, Decidable.not_not.mp height, other.2⟩
    split at found
    · cases found; cases against
    · rw [own_fault_behind (Nat.lt_succ_self _) found] at against
      cases against

/-- What a fill holds against the skeleton is that the answer does not meet an anchor. -/
theorem fault?_against_iff {f : HeaderFill} (filled : 0 < range.count)
    (height : opening.height + 1 = range.start)
    (closes : f.anchors.get? (range.stop - 1) = some closing) :
    (∃ fault, f.fault? range opening headers = some fault ∧ fault.againstSkeleton = true) ↔
      Unlinked range opening headers ∨ Unmatched f.engine range opening closing headers := by
  constructor
  · rintro ⟨fault, found, against⟩
    unfold fault? at found
    split at found
    · rename_i first heq
      cases found
      exact .inl (unlinked_of_firstFault heq against)
    · rename_i heq
      split at found
      · rename_i ends
        rw [closes] at ends
        exact .inr ⟨ends.1, (follow_of_firstFault heq).2, ends.2⟩
      · cases found
  · rintro (unlinked | ⟨whole, valid, other⟩)
    · exact ⟨.unlinked range.start, by rw [fault?, firstFault_of_unlinked filled unlinked], rfl⟩
    · have sound : firstFault f.engine range range.start opening headers = none :=
        firstFault_of_follows valid height (by rw [whole, Range.stop])
      refine ⟨.unmatched (range.stop - 1), ?_, rfl⟩
      rw [fault?, sound]
      dsimp only
      rw [closes, if_pos ⟨whole, other⟩]

end Faults

section Chains

variable {engine : Engine} {chain : List Header}

theorem ascending_of_follows (linked : chain.IsChain engine.Follows) :
    chain.Pairwise (·.height < ·.height) := by
  have rising : chain.IsChain (·.height < ·.height) := linked.imp fun parent h follows => by
    have height := follows.link.1
    omega
  have : IsTrans Header (·.height < ·.height) := ⟨fun _ _ _ => Nat.lt_trans⟩
  exact List.isChain_iff_pairwise.mp rising

theorem follows_of_height (linked : chain.IsChain engine.Follows) {parent h : Header}
    (hparent : parent ∈ chain) (hmem : h ∈ chain) (height : h.height = parent.height + 1) :
    engine.Follows parent h := by
  induction chain with
  | nil => cases hmem
  | cons a rest ih =>
    obtain ⟨above, -⟩ := List.pairwise_cons.mp (ascending_of_follows linked)
    rcases List.mem_cons.mp hparent with rfl | hparent
    · cases rest with
      | nil =>
        obtain rfl := List.mem_singleton.mp hmem
        omega
      | cons b rest =>
        obtain ⟨follows, tail⟩ := List.isChain_cons_cons.mp linked
        have next := follows.link.1
        obtain ⟨beyond, -⟩ := List.pairwise_cons.mp (ascending_of_follows tail)
        simp only [List.mem_cons] at hmem
        rcases hmem with rfl | rfl | hmem
        · omega
        · exact follows
        · have := beyond h hmem
          omega
    · have below := above parent hparent
      rcases List.mem_cons.mp hmem with rfl | hmem
      · omega
      · exact ih linked.tail hparent hmem

/-- Nothing in a chain contradicts anchors of the same chain. -/
theorem meets_anchors (linked : chain.IsChain engine.Follows) {range : Range}
    {opening closing : Header} {headers : List Header} (hopening : opening ∈ chain)
    (hclosing : closing ∈ chain) (opens : opening.height + 1 = range.start)
    (closes : closing.height = range.stop - 1) (filled : 0 < range.count)
    (sent : ∀ h ∈ headers, h ∈ chain) :
    ¬ (Unlinked range opening headers ∨ Unmatched engine range opening closing headers) := by
  rintro (⟨h, first, height, other⟩ | ⟨whole, valid, other⟩)
  · have mem := sent h (List.mem_of_mem_head? first)
    exact other (follows_of_height linked hopening mem (by omega)).link.2
  · have sound : firstFault engine range range.start opening headers = none :=
      firstFault_of_follows valid opens (by rw [whole, Range.stop])
    have heights := congrArg List.getLast? (follow_of_firstFault sound).1
    obtain ⟨last, hlast⟩ : ∃ last, headers.getLast? = some last := by
      rw [← Option.isSome_iff_exists, List.getLast?_isSome]
      rintro rfl
      simp at whole
      omega
    have distinct : (chain.map Header.height).Nodup :=
      List.pairwise_map.mpr ((ascending_of_follows linked).imp Nat.ne_of_lt)
    have same : last = closing := by
      refine List.inj_on_of_nodup_map distinct (sent last (List.mem_of_getLast? hlast)) hclosing ?_
      rw [List.getLast?_map, hlast, whole, List.getLast?_range', if_neg (by omega)] at heights
      have top := Option.some_inj.mp heights
      rw [closes, Range.stop]
      omega
    exact other (by rw [hlast, same, Option.map_some])

end Chains

section Verdicts

variable {f : HeaderFill} {id : RequestId} {peer : PeerId} {headers : List Header} {r : InFlight}
  {queue : Queue Header} {opening : Header} {fault : FillFault}

/-- The peer is the master itself, or there are enough of those that disagree. -/
def Condemns (f : HeaderFill) (peer : PeerId) : Prop :=
  peer = f.master ∨ f.mismatchLimit ≤ (f.mismatches.insert peer).length

variable (taken : f.queue.take? id = some (r, queue))
  (opened : f.anchors.get? (r.range.start - 1) = some opening)
include taken opened

theorem deliver_of_condemned (found : f.fault? r.range opening headers = some fault)
    (against : fault.againstSkeleton = true) (enough : f.Condemns peer) :
    ∃ reason, f.deliver id peer headers =
      ({ f with queue, mismatches := f.mismatches.insert peer },
        .error (.peerFault f.master .headers r.range reason)) := by
  have found' : fault? { f with queue } r.range opening headers = some fault := found
  have enough' : peer = f.master ∨ (f.mismatches.insert peer).length ≥ f.mismatchLimit := enough
  simp only [deliver, taken, opened, found', against, dispute, if_pos enough', if_true]
  exact ⟨_, rfl⟩

theorem deliver_of_disputed (found : f.fault? r.range opening headers = some fault)
    (against : fault.againstSkeleton = true) (few : ¬ f.Condemns peer) :
    f.deliver id peer headers =
      ({ f with queue := queue.complete r [] true, mismatches := f.mismatches.insert peer },
        .ok (.disputed headers.length fault.reason)) := by
  have found' : fault? { f with queue } r.range opening headers = some fault := found
  have few' : ¬ (peer = f.master ∨ (f.mismatches.insert peer).length ≥ f.mismatchLimit) := few
  simp only [deliver, taken, opened, found', against, dispute, if_neg few', if_true]

theorem deliver_of_rejected (found : f.fault? r.range opening headers = some fault)
    (own : fault.againstSkeleton = false) :
    f.deliver id peer headers = ({ f with queue := queue.complete r [] true },
      .ok (.rejected 0 headers.length fault.reason)) := by
  have found' : fault? { f with queue } r.range opening headers = some fault := found
  simp only [deliver, taken, opened, found', own, if_neg Bool.false_ne_true]

theorem deliver_of_short (sound : f.fault? r.range opening headers = none)
    (short : headers.length ≠ r.range.count) :
    f.deliver id peer headers =
      ({ f with queue := queue.complete r [] false }, .ok (.accepted 0)) := by
  have sound' : fault? { f with queue } r.range opening headers = none := sound
  simp only [deliver, taken, opened, sound', if_pos short]

theorem deliver_of_whole (sound : f.fault? r.range opening headers = none)
    (whole : headers.length = r.range.count) :
    f.deliver id peer headers = ({ f with queue := queue.complete r headers false }.collect,
      .ok (.accepted headers.length)) := by
  have sound' : fault? { f with queue } r.range opening headers = none := sound
  simp only [deliver, taken, opened, sound', if_neg (not_not_intro whole)]

end Verdicts

/-- Every piece of the work lies between two anchors, each in its place. -/
structure Fenced (anchors : Positioned Header) (ranges : List Range) : Prop where
  filled : ∀ r ∈ ranges, 0 < r.count
  opens : ∀ r ∈ ranges, ∃ a, anchors.get? (r.start - 1) = some a ∧ a.height + 1 = r.start
  closes : ∀ r ∈ ranges, ∃ a, anchors.get? (r.stop - 1) = some a ∧ a.height = r.stop - 1

section Start

variable (session : Nat) (origin : Header) (skeleton : List Header) (master : PeerId)
  (engine : Engine) (limit : Nat)

theorem height_of_anchor {n : Nat} {a : Header}
    (h : (start session origin skeleton master engine limit).anchors.get? n = some a) :
    a.height = n := by
  rcases Positioned.mem_foldl_insert (Keyed.mem_of_lookup h) with h | ⟨s, -, h⟩
  · cases List.mem_singleton.mp h
    rfl
  · cases h
    rfl

/-- A header that stands in the origin's or the skeleton's place. -/
theorem anchor_of_mem {s : Header} (mem : s ∈ origin :: skeleton) :
    ∃ a, (start session origin skeleton master engine limit).anchors.get? s.height = some a ∧
      a.height = s.height := by
  have placed : ((start session origin skeleton master engine limit).anchors.get?
      s.height).isSome := by
    refine anchors_isSome _ ?_
    rcases List.mem_cons.mp mem with rfl | mem
    · exact .inl (by simp [Positioned.get?])
    · exact .inr ⟨s, mem, rfl⟩
  obtain ⟨a, ha⟩ := Option.isSome_iff_exists.mp placed
  exact ⟨a, ha, height_of_anchor session origin skeleton master engine limit ha⟩

theorem fenced_start :
    Fenced (start session origin skeleton master engine limit).anchors
      ((gaps origin.height skeleton).filter (·.count > 0)) := by
  refine ⟨fun r hr => by simpa using (List.mem_filter.mp hr).2, fun r hr => ?_, fun r hr => ?_⟩
  all_goals
    obtain ⟨gap, filled⟩ := List.mem_filter.mp hr
    obtain ⟨before, opening, closing, behind, heq, rfl⟩ := gap_between gap
    simp only [gt_iff_lt, decide_eq_true_eq] at filled
    have placed {s : Header} (mem : s = opening ∨ s = closing) :=
      anchor_of_mem session origin skeleton master engine limit (s := s) (by
        rw [heq]
        rcases mem with rfl | rfl <;> simp)
  · obtain ⟨a, ha, height⟩ := placed (.inl rfl)
    exact ⟨a, ha, by rw [height]⟩
  · obtain ⟨a, ha, height⟩ := placed (.inr rfl)
    have top : (⟨opening.height + 1, closing.height - opening.height⟩ : Range).stop - 1 =
        closing.height := by
      simp only [Range.stop]
      omega
    exact ⟨a, by rw [top, ha], by rw [top, height]⟩

end Start

section Runs

variable {engine : Engine} {anchors : Positioned Header} {master : PeerId} {ranges : List Range}
  {limit : Nat} {peers : Finset PeerId} {f : HeaderFill}

/-- The peers counted are those that have contradicted the skeleton. -/
structure Reckoned (limit : Nat) (peers : Finset PeerId) (f : HeaderFill) : Prop where
  limit : f.mismatchLimit = limit
  nodup : f.mismatches.Nodup
  counted : f.mismatches.toFinset = peers

theorem Reckoned.requeue (h : f.Reckoned limit peers) (queue : Queue Header) :
    Reckoned limit peers { f with queue } := ⟨h.limit, h.nodup, h.counted⟩

theorem toFinset_insert (peer : PeerId) (l : List PeerId) :
    (l.insert peer).toFinset = insert peer l.toFinset := by
  ext other
  simp

theorem Reckoned.condemns_iff (h : f.Reckoned limit peers) {peer : PeerId} :
    f.Condemns peer ↔ peer = f.master ∨ limit ≤ (insert peer peers).card := by
  have card : (f.mismatches.insert peer).length = (insert peer peers).card := by
    rw [← List.toFinset_card_of_nodup h.nodup.insert, toFinset_insert, h.counted]
  rw [Condemns, h.limit, card]

/-- A contradiction is counted; the first that suffices ends the fill, and nothing else does. -/
theorem deliver_verdict (given : f.Given engine anchors master ranges)
    (fenced : Fenced anchors ranges) (id : RequestId) (peer : PeerId) (headers : List Header) :
    f.AnchorFaulty id headers ∧
        (f.deliver id peer headers).1.mismatches = f.mismatches.insert peer ∧
        (f.Condemns peer ∧ (∃ range reason, (f.deliver id peer headers).2 =
            .error (.peerFault master .headers range reason)) ∨
          ¬ f.Condemns peer ∧ ∃ delivery, (f.deliver id peer headers).2 = .ok delivery) ∨
      ¬ f.AnchorFaulty id headers ∧ (f.deliver id peer headers).1.mismatches = f.mismatches ∧
        ∃ delivery, (f.deliver id peer headers).2 = .ok delivery := by
  cases taken : f.queue.take? id with
  | none =>
    have unasked : f.queue.inFlight.lookup id = none := by simpa [Queue.take?] using taken
    refine .inr ⟨?_, ?_, ?_⟩
    · rintro ⟨r, live, -⟩
      rw [unasked] at live
      cases live
    · rw [deliver, taken]
    · exact ⟨.stale headers.length, by rw [deliver, taken]⟩
  | some x =>
    obtain ⟨r, queue⟩ := x
    have mem := given.mem_ranges taken
    obtain ⟨opening, opened, height⟩ := fenced.opens r.range mem
    obtain ⟨closing, closed, -⟩ := fenced.closes r.range mem
    rw [← given.anchors_eq] at opened closed
    have live := (Queue.take?_eq_some.mp taken).1
    -- both anchors are there, so a fault against the skeleton is one against them
    have faulty : f.AnchorFaulty id headers ↔
        ∃ fault, f.fault? r.range opening headers = some fault ∧ fault.againstSkeleton = true := by
      rw [fault?_against_iff (fenced.filled r.range mem) height closed]
      simp [AnchorFaulty, live, opened, closed]
    cases found : f.fault? r.range opening headers with
    | none =>
      refine .inr ⟨by simp [faulty, found], ?_⟩
      by_cases whole : headers.length = r.range.count
      · rw [deliver_of_whole taken opened found whole]
        exact ⟨rfl, _, rfl⟩
      · rw [deliver_of_short taken opened found whole]
        exact ⟨rfl, _, rfl⟩
    | some fault =>
      by_cases against : fault.againstSkeleton = true
      · refine .inl ⟨faulty.mpr ⟨fault, found, against⟩, ?_⟩
        by_cases enough : f.Condemns peer
        · obtain ⟨reason, heq⟩ := deliver_of_condemned taken opened found against enough
          rw [heq, given.master_eq]
          exact ⟨rfl, .inl ⟨enough, r.range, reason, rfl⟩⟩
        · rw [deliver_of_disputed taken opened found against enough]
          exact ⟨rfl, .inr ⟨enough, _, rfl⟩⟩
      · refine .inr ⟨by simp [faulty, found, against], ?_⟩
        rw [deliver_of_rejected taken opened found (Bool.eq_false_iff.mpr against)]
        exact ⟨rfl, _, rfl⟩

theorem mismatchLimit_deliver (f : HeaderFill) (id : RequestId) (peer : PeerId)
    (headers : List Header) : (f.deliver id peer headers).1.mismatchLimit = f.mismatchLimit := by
  rcases f.deliver_cases id peer headers with
    ⟨-, heq⟩ | ⟨r, queue, -, ⟨mismatches, heq, -⟩ | ⟨mismatches, atFault, heq⟩ | ⟨heq, -⟩⟩ <;>
  rw [heq]
  rfl

variable {σ : Type} {d : Desk σ HeaderFill}

/-- Who contradicts the skeleton with a call. -/
def disputes (d : Desk σ HeaderFill) : Move → List PeerId
  | .deliver id peer payload => if d.task.AnchorFaulty id payload.headersOf then [peer] else []
  | _ => []

/-- The peers that have contradicted the skeleton. -/
def disputers (d : Desk σ HeaderFill) (moves : List Move) : Finset PeerId :=
  (Desk.history disputes d moves).toFinset

theorem task_apply_deliver (d : Desk σ HeaderFill) (id : RequestId) (peer : PeerId)
    (payload : Payload) : (d.apply (.deliver id peer payload)).task =
      (d.task.deliver id peer payload.headersOf).1 := by
  have task : (Receiver.deliver d.task d.board id peer payload).1 =
    (d.task.deliver id peer payload.headersOf).1 := rfl
  rw [← task, Desk.apply]
  split <;> rename_i heq <;> rw [heq]

theorem error_apply_deliver {id : RequestId} {peer : PeerId} {payload : Payload}
    {delivery : Delivery} (took : (d.task.deliver id peer payload.headersOf).2 = .ok delivery) :
    (d.apply (.deliver id peer payload)).error = d.error := by
  have result : (Receiver.deliver d.task d.board id peer payload).2.2 = .ok delivery := took
  rw [Desk.apply]
  split <;> rename_i heq <;> rw [heq] at result
  cases result

theorem reckoned_apply (given : d.task.Given engine anchors master ranges)
    (fenced : Fenced anchors ranges) (h : d.task.Reckoned limit peers) (m : Move) :
    (d.apply m).task.Reckoned limit (peers ∪ (disputes d m).toFinset) := by
  cases m with
  | reserve peer capacity live =>
    simp only [disputes, List.toFinset_nil, Finset.union_empty]
    cases handed : Workload.reserve d.task peer capacity live with
    | none => simpa only [Desk.apply, handed] using h
    | some x =>
      obtain ⟨id, range, queue, -, -, same⟩ := reserve_eq_some handed
      simp only [Desk.apply, handed, same]
      exact h.requeue queue
  | deliver id peer payload =>
    have limited := (mismatchLimit_deliver d.task id peer payload.headersOf).trans h.limit
    rw [task_apply_deliver, disputes]
    rcases deliver_verdict given fenced id peer payload.headersOf with
      ⟨faulty, counted, -⟩ | ⟨sound, counted, -⟩
    · rw [if_pos faulty]
      refine ⟨limited, counted ▸ h.nodup.insert, ?_⟩
      rw [counted, toFinset_insert, h.counted, Finset.insert_eq, Finset.union_comm]
      rfl
    · rw [if_neg sound, List.toFinset_nil, Finset.union_empty]
      exact ⟨limited, counted ▸ h.nodup, counted ▸ h.counted⟩
  | fail id =>
    simp only [disputes, List.toFinset_nil, Finset.union_empty, Desk.apply, Workload.fail, fail]
    split
    · exact h.requeue _
    · exact h
  | failPeer peer =>
    simp only [disputes, List.toFinset_nil, Finset.union_empty]
    exact h.requeue _

theorem reckoned_run (given : d.task.Given engine anchors master ranges)
    (fenced : Fenced anchors ranges) (h : d.task.Reckoned limit peers) (moves : List Move) :
    (d.run moves).task.Given engine anchors master ranges ∧
      (d.run moves).task.Reckoned limit (peers ∪ disputers d moves) := by
  induction moves generalizing d peers with
  | nil => exact ⟨given, by simpa [disputers, Desk.history, Desk.run] using h⟩
  | cons m moves ih =>
    have next := ih ((lasting_given σ ..).apply given m) (reckoned_apply given fenced h m)
    rwa [Finset.union_assoc, disputers, ← List.toFinset_append] at next

section Chain

variable {chain : List Header} (linked : chain.IsChain engine.Follows)
  (anchored : ∀ e ∈ anchors, e.2 ∈ chain)
include linked anchored

/-- An answer with headers of the chain that the skeleton is of does not contradict it. -/
theorem not_anchorFaulty (given : f.Given engine anchors master ranges)
    (fenced : Fenced anchors ranges) {id : RequestId} {headers : List Header}
    (sent : ∀ h ∈ headers, h ∈ chain) : ¬ f.AnchorFaulty id headers := by
  rintro ⟨r, live, opening, opened, closing, closed, contradicts⟩
  have mem := given.mem_ranges (Queue.take?_eq_some.mpr ⟨live, rfl⟩)
  rw [given.anchors_eq] at opened closed
  rw [given.engine_eq] at contradicts
  obtain ⟨a, ha, height⟩ := fenced.opens r.range mem
  obtain ⟨b, hb, top⟩ := fenced.closes r.range mem
  obtain rfl : a = opening := Option.some_inj.mp (ha.symm.trans opened)
  obtain rfl : b = closing := Option.some_inj.mp (hb.symm.trans closed)
  exact meets_anchors linked (anchored _ (Keyed.mem_of_lookup ha))
    (anchored _ (Keyed.mem_of_lookup hb)) height top (fenced.filled r.range mem) sent contradicts

variable {liars : Finset PeerId} (few : liars.card < limit) (innocent : master ∉ liars)
include few innocent

/-- While fewer than it takes contradict the skeleton, and not the master, the fill goes on. -/
theorem unblamed_apply (given : d.task.Given engine anchors master ranges)
    (fenced : Fenced anchors ranges) (h : d.task.Reckoned limit peers) (lied : peers ⊆ liars)
    (ok : d.error = none) {m : Move}
    (honest : ∀ id peer payload, m = .deliver id peer payload → peer ∉ liars →
      ∀ h ∈ payload.headersOf, h ∈ chain) :
    (d.apply m).error = none ∧ peers ∪ (disputes d m).toFinset ⊆ liars := by
  cases m with
  | reserve peer capacity live =>
    refine ⟨?_, by simpa [disputes] using lied⟩
    rw [Desk.apply]
    split <;> exact ok
  | deliver id peer payload =>
    rw [disputes]
    rcases deliver_verdict given fenced id peer payload.headersOf with
      ⟨faulty, -, verdict⟩ | ⟨sound, -, delivery, took⟩
    · have liar : peer ∈ liars := by
        by_contra other
        exact not_anchorFaulty linked anchored given fenced (honest id peer payload rfl other)
          faulty
      have counted : insert peer peers ⊆ liars := Finset.insert_subset liar lied
      -- with the liar that is counted now there are still only liars
      have spared : ¬ d.task.Condemns peer := by
        rw [h.condemns_iff, given.master_eq]
        rintro (rfl | enough)
        · exact innocent liar
        · exact absurd (Nat.le_trans enough (Finset.card_le_card counted)) (Nat.not_le.mpr few)
      rw [if_pos faulty]
      refine ⟨?_, Finset.union_subset lied (by simpa using liar)⟩
      rcases verdict with ⟨condemned, -⟩ | ⟨-, delivery, took⟩
      · exact absurd condemned spared
      · exact (error_apply_deliver took).trans ok
    · rw [if_neg sound]
      exact ⟨(error_apply_deliver took).trans ok, by simpa using lied⟩
  | fail id => exact ⟨ok, by simpa [disputes] using lied⟩
  | failPeer peer => exact ⟨ok, by simpa [disputes] using lied⟩

theorem unblamed_run (given : d.task.Given engine anchors master ranges)
    (fenced : Fenced anchors ranges) (h : d.task.Reckoned limit peers) (lied : peers ⊆ liars)
    (ok : d.error = none) {moves : List Move}
    (honest : ∀ id peer payload, .deliver id peer payload ∈ moves → peer ∉ liars →
      ∀ h ∈ payload.headersOf, h ∈ chain) :
    (d.run moves).error = none := by
  induction moves generalizing d peers with
  | nil => exact ok
  | cons m moves ih =>
    obtain ⟨going, more⟩ := unblamed_apply linked anchored few innocent given fenced h lied ok
      fun id peer payload heq => honest id peer payload (heq ▸ List.mem_cons_self ..)
    exact ih ((lasting_given σ ..).apply given m) (reckoned_apply given fenced h m) more going
      fun id peer payload mem => honest id peer payload (List.mem_cons_of_mem _ mem)

end Chain
end Runs

/-- However peers answer, a fill fails on the skeleton alone: on an answer that contradicts it, from
the master itself or, with all that have contradicted it anywhere before, from enough peers. The
master is blamed for it, but not while fewer peers lie about a skeleton of the chain that the master
answers from. -/
theorem skeleton_is_held_against_its_master {σ : Type} (session : Nat) (origin : Header)
    (skeleton : List Header) (master : PeerId) (engine : Engine) (limit : Nat) (board : Board σ)
    (moves : List Move) :
    let d : Desk σ HeaderFill :=
      ⟨.start session origin skeleton master engine limit, board, none⟩
    (∀ id peer headers,
      let f := (d.run moves).task
      (∀ err, (f.deliver id peer headers).2 = .error err →
        ∃ range reason, err = .peerFault master .headers range reason) ∧
      ((∃ err, (f.deliver id peer headers).2 = .error err) ↔
        f.AnchorFaulty id headers ∧
          (peer = master ∨ limit ≤ (insert peer (disputers d moves)).card))) ∧
    ∀ chain : List Header, chain.IsChain engine.Follows → (∀ h ∈ origin :: skeleton, h ∈ chain) →
      ∀ liars : Finset PeerId, liars.card < limit → master ∉ liars →
        (∀ id peer payload, .deliver id peer payload ∈ moves → peer ∉ liars →
          ∀ h ∈ payload.headersOf, h ∈ chain) →
        (d.run moves).error = none := by
  intro d
  have begun := given_start session origin skeleton master engine limit
  have fenced := fenced_start session origin skeleton master engine limit
  have unworked : d.task.Reckoned limit ∅ := ⟨rfl, .nil, rfl⟩
  refine ⟨fun id peer headers => ?_, fun chain linked taken liars few innocent honest => ?_⟩
  · intro f
    obtain ⟨given, reckoned⟩ := reckoned_run begun fenced unworked moves
    rw [Finset.empty_union] at reckoned
    have condemns : f.Condemns peer ↔ _ := reckoned.condemns_iff
    rw [given.master_eq] at condemns
    rw [← condemns]
    rcases deliver_verdict given fenced id peer headers with
      ⟨faulty, -, ⟨enough, range, reason, heq⟩ | ⟨few, delivery, heq⟩⟩ | ⟨sound, -, delivery, heq⟩
    all_goals rw [heq]
    · refine ⟨fun err failed => ⟨range, reason, ?_⟩, fun _ => ⟨faulty, enough⟩, fun _ => ⟨_, rfl⟩⟩
      exact (Except.error.inj failed).symm
    · exact ⟨nofun, nofun, fun condemned => absurd condemned.2 few⟩
    · exact ⟨nofun, nofun, fun condemned => absurd condemned.1 sound⟩
  · exact unblamed_run linked (fun e mem => taken e.2 (mem_anchors_start mem)) few innocent begun
      fenced unworked (Finset.empty_subset _) rfl honest

/-- One liar does not harm the master, a second one does. -/
theorem skeleton_is_held_against_its_master_two_liars :
    let next : Header :=
      { number := 1, timestamp := 1
        parentHash := 0x700f4df9a77094c21ce453225cefb24eadb12af52492e88dbac6851d9c99946e#256 }
    let forged : Header := { number := 1, timestamp := 2 }
    let d : Desk Unit HeaderFill := ⟨.start 7 {} [next] 1 (.ethash 0) 2, ⟨{}, ()⟩, none⟩
    let moves : List Move :=
      [.reserve 3 8 [1, 3, 4], .deliver ⟨7, 0⟩ 3 (.headers [forged]), .reserve 4 8 [1, 3, 4]]
    [{}, next].IsChain (Engine.ethash 0).Follows ∧ (d.run moves).error = none ∧
      (d.run moves).task.AnchorFaulty ⟨7, 1⟩ [forged] ∧ disputers d moves = {3} ∧
      ∃ err, ((d.run moves).task.deliver ⟨7, 1⟩ 4 [forged]).2 = .error err := by
  intro next forged d moves
  have linked : [{}, next].IsChain (Engine.ethash 0).Follows := by decide +kernel
  obtain ⟨faulty, before⟩ :
      (d.run moves).task.AnchorFaulty ⟨7, 1⟩ [forged] ∧ disputers d moves = {3} := by
    decide +kernel
  obtain ⟨blames, unblamed⟩ :=
    skeleton_is_held_against_its_master 7 {} [next] 1 (.ethash 0) 2 (⟨{}, ()⟩ : Board Unit) moves
  refine ⟨linked, ?_, faulty, before, ?_⟩
  · refine unblamed [{}, next] linked (fun h mem => mem) {3} (by decide) (by decide) ?_
    intro id peer payload sent honest
    simp only [moves, List.mem_cons, Move.deliver.injEq, reduceCtorEq, false_or, or_false,
      List.not_mem_nil] at sent
    exact absurd (by simp [sent.2.1]) honest
  · refine (blames ⟨7, 1⟩ 4 [forged]).2.mpr ⟨faulty, .inr ?_⟩
    have known : disputers d moves = {3} := before
    rw [known]
    decide

end HeaderFill
end ChainSync
