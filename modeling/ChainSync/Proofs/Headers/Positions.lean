import Mathlib.Data.List.Range
import ChainSync.Proofs.Fetch.Custody
import ChainSync.Proofs.Headers.Gaps
import ChainSync.Proofs.Headers.Skeleton
set_option autoImplicit false

/-!
How the heights of a skeleton lie in its segment: no two further apart than a batch, each asked for
once, and each closing a batch of its own.
-/

namespace ChainSync

open Fetch

variable {start stop size : Nat}

/-- Heights from behind `start` up to `stop`, none further than `size` from the one before it. -/
structure Waymarks (start stop size : Nat) (heights : List Nat) : Prop where
  ascending : heights.Pairwise (· < ·)
  inside : ∀ n ∈ heights, start < n ∧ n ≤ stop
  last : heights.getLast? = some stop
  near : (start :: heights).IsChain fun m n => n ≤ m + size

/-- Ranges that fill everything from behind `start` up to `stop`, none empty or above `size`. -/
structure Batches (start stop size : Nat) (ranges : List Range) : Prop where
  tiles : Tiles (start + 1) ranges (stop + 1)
  filled : ∀ r ∈ ranges, 0 < r.count
  bounded : ∀ r ∈ ranges, r.count ≤ size

/-- Counted from the start itself, spaced positions are a progression. -/
theorem cons_spacedPositions (start stop size : Nat) :
    start :: spacedPositions start stop size =
      (List.range ((stop - start) / size + 1)).map fun i => start + i * size := by
  rw [List.range_succ_eq_map, List.map_cons, List.map_map, Nat.zero_mul, Nat.add_zero]
  rfl

theorem getLast?_cons_spacedPositions :
    (start :: spacedPositions start stop size).getLast? =
      some (start + (stop - start) / size * size) := by
  rw [cons_spacedPositions, List.range_succ, List.map_append, List.map_cons, List.map_nil,
    List.getLast?_concat]

theorem spacedPositions_near :
    (start :: spacedPositions start stop size).IsChain fun m n => n ≤ m + size := by
  rw [cons_spacedPositions, List.isChain_map, List.isChain_range]
  intro i _
  rw [Nat.succ_mul, Nat.add_assoc]

section Segment

variable (hsize : 0 < size) (hlt : start < stop)
include hsize hlt

theorem stop_mem_spacedPositions :
    stop ∈ spacedPositions start stop size ↔ (stop - start) % size = 0 := by
  rw [mem_spacedPositions, ← Nat.dvd_iff_mod_eq_zero]
  constructor
  · rintro ⟨i, -, rfl⟩
    exact ⟨i + 1, by rw [Nat.add_sub_cancel_left, Nat.mul_comm]⟩
  · rintro ⟨count, hcount⟩
    have positive : 0 < count := Nat.pos_of_ne_zero fun hz => by
      rw [hz, Nat.mul_zero] at hcount
      omega
    refine ⟨count - 1, ?_, ?_⟩
    · rw [hcount, Nat.mul_div_cancel_left _ hsize]
      exact Nat.sub_lt positive Nat.one_pos
    · rw [Nat.sub_add_cancel positive, Nat.mul_comm, ← hcount]
      omega

/-- The end has to be named apart exactly if it is not a whole number of batches away. -/
theorem skeletonPositions_eq :
    skeletonPositions start stop size =
      spacedPositions start stop size ++ if (stop - start) % size = 0 then [] else [stop] := by
  have closed : (spacedPositions start stop size).getLast? = some stop ↔
      (stop - start) % size = 0 := by
    rw [← stop_mem_spacedPositions hsize hlt]
    exact ⟨List.mem_of_getLast?, getLast?_of_stop_mem hsize⟩
  unfold skeletonPositions
  dsimp only
  split_ifs with apart whole whole
  · exact absurd (closed.mpr whole) apart.1
  · rfl
  · rw [List.append_nil]
  · exact absurd ⟨fun same => whole (closed.mp same), hlt⟩ apart

theorem skeletonPositions_near :
    (start :: skeletonPositions start stop size).IsChain fun m n => n ≤ m + size := by
  rw [skeletonPositions_eq hsize hlt]
  split_ifs with whole
  · rw [List.append_nil]
    exact spacedPositions_near
  · rw [← List.cons_append]
    refine List.isChain_append.mpr ⟨spacedPositions_near, .singleton stop, ?_⟩
    rw [getLast?_cons_spacedPositions]
    rintro _ ⟨⟩ _ ⟨⟩
    -- what is left behind the last spaced position is a remainder
    have split := Nat.div_add_mod' (stop - start) size
    have remainder := Nat.mod_lt (stop - start) hsize
    omega

theorem skeletonPositions_waymarks :
    Waymarks start stop size (skeletonPositions start stop size) := by
  obtain ⟨ascending, last⟩ := skeletonPositions_spec hsize hlt
  obtain ⟨above, ascending⟩ := List.pairwise_cons.mp ascending
  refine ⟨ascending, fun n mem => ⟨above n mem, ?_⟩, last, skeletonPositions_near hsize hlt⟩
  obtain ⟨front, hfront⟩ := List.getLast?_eq_some_iff.mp last
  rw [hfront, List.mem_append, List.mem_singleton] at mem
  rw [hfront] at ascending
  rcases mem with mem | rfl
  · exact Nat.le_of_lt <|
      (List.pairwise_append.mp ascending).2.2 n mem stop (List.mem_singleton_self stop)
  · exact Nat.le_refl n

theorem filter_skeletonPositions :
    ((skeletonPositions start stop size).filter fun n => (n - start) % size == 0) =
      spacedPositions start stop size := by
  have whole : ∀ n ∈ spacedPositions start stop size, ((n - start) % size == 0) = true := by
    intro n hn
    obtain ⟨i, -, rfl⟩ := mem_spacedPositions.mp hn
    simp
  rw [skeletonPositions_eq hsize hlt, List.filter_append, List.filter_eq_self.mpr whole]
  split_ifs with hstop
  · rw [List.filter_nil, List.append_nil]
  · simp [hstop]

/-- At most two requests: one for all headers at a whole number of batches, and one for the end. -/
theorem skeletonRequests_eq :
    skeletonRequests start stop size =
      (if (stop - start) / size = 0 then []
        else [.spaced (start + size) ((stop - start) / size) (size - 1)]) ++
      if (stop - start) % size = 0 then [] else [.single (.number stop)] := by
  have length : (spacedPositions start stop size).length = (stop - start) / size := by
    simp [spacedPositions]
  unfold skeletonRequests
  dsimp only
  rw [filter_skeletonPositions hsize hlt, skeletonPositions_eq hsize hlt]
  congr 1
  · split
    · rename_i none
      rw [none, List.length_nil] at length
      rw [if_pos length.symm]
    · rename_i first rest found
      have some : (stop - start) / size ≠ 0 := by
        rw [← length, found]
        exact Nat.succ_ne_zero _
      have opens : start + size = first := by
        have opens := congrArg List.head? found
        rw [spacedPositions, ← Nat.succ_pred some, List.range_succ_eq_map] at opens
        simpa using opens
      rw [if_neg some, length, opens]
  · by_cases whole : (stop - start) % size = 0
    · rw [if_pos whole, if_pos whole, List.append_nil, if_neg (Nat.lt_irrefl _)]
    · rw [if_neg whole, if_neg whole, List.length_append, List.length_singleton,
        if_pos (Nat.lt_succ_self _)]

theorem flatMap_numbers_skeletonRequests :
    (skeletonRequests start stop size).flatMap HeadersRequest.numbers =
      skeletonPositions start stop size := by
  have steps : (HeadersRequest.spaced (start + size) ((stop - start) / size) (size - 1)).numbers =
      spacedPositions start stop size := by
    simp only [HeadersRequest.numbers, HeadersRequest.spaced, spacedPositions,
      Nat.sub_add_cancel hsize, Nat.succ_mul, Bool.false_eq_true, if_false]
    refine List.map_congr_left fun i _ => ?_
    omega
  have first : (if (stop - start) / size = 0 then []
      else [HeadersRequest.spaced (start + size) ((stop - start) / size) (size - 1)]).flatMap
        HeadersRequest.numbers = spacedPositions start stop size := by
    split_ifs with none
    · rw [spacedPositions, none]
      rfl
    · rw [List.flatMap_singleton, steps]
  have second : (if (stop - start) % size = 0 then []
      else [HeadersRequest.single (.number stop)]).flatMap HeadersRequest.numbers =
        if (stop - start) % size = 0 then [] else [stop] := by
    split_ifs <;> rfl
  rw [skeletonRequests_eq hsize hlt, List.flatMap_append, first, second,
    skeletonPositions_eq hsize hlt]

end Segment

/-- Anchors that are waymarks leave gaps that are batches. -/
theorem Waymarks.batches {origin : Header} {skeleton : List Header}
    (waymarks : Waymarks origin.height stop size (skeleton.map Header.height)) :
    Batches origin.height stop size (HeaderFill.gaps origin.height skeleton) := by
  have ascending : (origin :: skeleton).Pairwise (·.height < ·.height) :=
    List.pairwise_cons.mpr ⟨fun h mem => (waymarks.inside _ (List.mem_map_of_mem mem)).1,
      List.pairwise_map.mp waymarks.ascending⟩
  have near : (origin :: skeleton).IsChain fun m n => n.height ≤ m.height + size :=
    (List.isChain_map Header.height (l := origin :: skeleton)).mp waymarks.near
  have last : (skeleton.getLastD origin).height = stop := by
    have last := waymarks.last
    rw [List.getLast?_map, Option.map_eq_some_iff] at last
    obtain ⟨closing, found, height⟩ := last
    rw [List.getLastD_eq_getLast?, found, Option.getD_some, height]
  have gap : ∀ r ∈ HeaderFill.gaps origin.height skeleton, 0 < r.count ∧ r.count ≤ size := by
    intro r mem
    obtain ⟨before, opening, closing, behind, split, rfl⟩ := HeaderFill.gap_between mem
    rw [split] at ascending near
    have above := (List.pairwise_cons.mp (List.pairwise_append.mp ascending).2.1).1 closing
      List.mem_cons_self
    have reach := (List.isChain_cons_cons.mp near.right_of_append).1
    exact ⟨Nat.sub_pos_of_lt above, Nat.sub_le_iff_le_add'.mpr reach⟩
  exact ⟨last ▸ HeaderFill.tiles_gaps ascending, fun r mem => (gap r mem).1,
    fun r mem => (gap r mem).2⟩

/-- Just the gaps of its skeleton wait in a new fill. -/
theorem HeaderFill.pendingRanges_start {origin : Header} {skeleton : List Header}
    (batches : Batches start stop size (gaps origin.height skeleton)) (session : Nat)
    (master : PeerId) (engine : Engine) (mismatchLimit : Nat) :
    let fill := HeaderFill.start session origin skeleton master engine mismatchLimit
    (pendingRanges fill.queue.pending).Perm (gaps origin.height skeleton) := by
  have pending := pendingRanges_ofRanges Header batches.tiles session false
  rwa [List.filter_eq_self.mpr fun r mem => decide_eq_true (batches.filled r mem)] at pending

end ChainSync
