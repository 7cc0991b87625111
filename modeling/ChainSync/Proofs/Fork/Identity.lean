import Mathlib.Order.Bounds.Basic
import ChainSync.Fork.Schedule
import ChainSync.Proofs.Fork.Verdict
set_option autoImplicit false

/-!
The fork id that a node gives itself. A filter looks it up, a schedule works it out, and both name
the same forks at every head; what it names is the set of the activation blocks that are not zero.
-/

namespace ChainSync.Fork

section Filters

variable (genesis : Hash) (forks : List UInt64)

/-- There is a sum for every number of forks passed, none at all and all of them included. -/
theorem passed_lt_length_sums (head : UInt64) :
    (Filter.ofSchedule genesis forks head).passed <
      (Filter.ofSchedule genesis forks head).sums.length := by
  rw [length_ofSchedule_sums]
  exact Nat.lt_succ_of_le (reached_le forks head)

theorem current_ofSchedule (head : UInt64) :
    (Filter.ofSchedule genesis forks head).current = Id.ofHead genesis forks head := by
  have found : (Filter.ofSchedule genesis forks head).sums[reached forks head]? =
      some (checksum genesis (forks.take (reached forks head))) := sums_get _ _ (reached_le _ _)
  have passed : (Filter.ofSchedule genesis forks head).passed = reached forks head := rfl
  rw [Filter.current, passed, List.getD_eq_getElem?_getD, found, ofHead_eq]
  rfl

/-- The sums do not depend on the head, so a filter that has moved is one made for where it is. -/
theorem setHead_ofSchedule (start head : UInt64) :
    (Filter.ofSchedule genesis forks start).setHead head = Filter.ofSchedule genesis forks head :=
  rfl

/-- The ids that a filter names as it moves from head to head. -/
def Filter.trail (f : Filter) : List UInt64 → List Id
  | [] => []
  | head :: rest => (f.setHead head).current :: (f.setHead head).trail rest

theorem trail_ofSchedule (start : UInt64) (heads : List UInt64) :
    (Filter.ofSchedule genesis forks start).trail heads = heads.map (Id.ofHead genesis forks) := by
  induction heads generalizing start with
  | nil => rfl
  | cons head rest ih =>
    rw [Filter.trail, setHead_ofSchedule, current_ofSchedule, ih head, List.map_cons]

theorem foldl_setHead (start : UInt64) (heads : List UInt64) :
    heads.foldl Filter.setHead (Filter.ofSchedule genesis forks start) =
      Filter.ofSchedule genesis forks (heads.getLastD start) := by
  induction heads generalizing start with
  | nil => rfl
  | cons head rest ih =>
    rw [List.foldl_cons, setHead_ofSchedule, ih head, List.getLastD_cons]

/-- Wherever a filter moves, up or down, it names the id that the schedule works out for that head,
whatever the forks are and in whichever order; and no lookup is beyond its sums. -/
theorem filter_follows_schedule (start : UInt64) (heads : List UInt64) :
    let filter := heads.foldl Filter.setHead (Filter.ofSchedule genesis forks start)
    (Filter.ofSchedule genesis forks start).trail heads = heads.map (Id.ofHead genesis forks) ∧
      filter.head = heads.getLastD start ∧
      filter.current = Id.ofHead genesis forks (heads.getLastD start) ∧
      filter.passed < filter.sums.length := by
  intro filter
  have made : filter = Filter.ofSchedule genesis forks (heads.getLastD start) :=
    foldl_setHead genesis forks start heads
  rw [made]
  exact ⟨trail_ofSchedule genesis forks start heads, rfl, current_ofSchedule ..,
    passed_lt_length_sums ..⟩

/-- Unsorted, with a fork twice and one at zero, and a head that goes down again. -/
example : (Filter.ofSchedule 0 [30, 0, 10, 10] 5).trail [10, 30, 7] =
    [10, 30, 7].map (Id.ofHead 0 [30, 0, 10, 10]) := by decide +kernel

end Filters

section Schedules

variable {block b : UInt64} {blocks : List UInt64}

theorem mem_insertBlock : b ∈ insertBlock block blocks ↔ b = block ∨ b ∈ blocks := by
  induction blocks with
  | nil => simp [insertBlock]
  | cons first rest ih =>
    unfold insertBlock
    split
    · simp
    · split
      · rename_i same
        simp [same]
      · simp [ih, or_left_comm]

theorem ascending_insertBlock (ascending : blocks.Pairwise (· < ·)) :
    (insertBlock block blocks).Pairwise (· < ·) := by
  induction blocks with
  | nil => simp [insertBlock]
  | cons first rest ih =>
    obtain ⟨above, others⟩ := List.pairwise_cons.mp ascending
    unfold insertBlock
    split
    · rename_i below
      refine List.pairwise_cons.mpr ⟨fun c hc => ?_, ascending⟩
      rcases List.mem_cons.mp hc with rfl | hc
      · exact below
      · exact UInt64.lt_trans below (above c hc)
    · split
      · exact ascending
      · rename_i notBelow different
        refine List.pairwise_cons.mpr ⟨fun c hc => ?_, ih others⟩
        rcases mem_insertBlock.mp hc with rfl | hc
        · exact UInt64.lt_of_le_of_ne (UInt64.not_lt.mp notBelow) (Ne.symm different)
        · exact above c hc

theorem foldl_insertBlock {acc : List UInt64} (ascending : acc.Pairwise (· < ·)) :
    (blocks.foldl (fun acc b => insertBlock b acc) acc).Pairwise (· < ·) ∧
      ∀ c, c ∈ blocks.foldl (fun acc b => insertBlock b acc) acc ↔ c ∈ acc ∨ c ∈ blocks := by
  induction blocks generalizing acc with
  | nil => simp [ascending]
  | cons block rest ih =>
    have inserted : (insertBlock block acc).Pairwise (· < ·) := ascending_insertBlock ascending
    obtain ⟨sorted, members⟩ := ih inserted
    refine ⟨sorted, fun c => ?_⟩
    rw [List.foldl_cons, members c, mem_insertBlock, List.mem_cons]
    simp [or_assoc, or_left_comm]

variable (s t : Schedule)

theorem forks_ascending : s.forks.Pairwise (· < ·) := (foldl_insertBlock .nil).1

theorem mem_forks : b ∈ s.forks ↔ b ∈ s.activationBlocks ∧ b ≠ 0 := by
  rw [Schedule.forks, (foldl_insertBlock .nil).2]
  simp

/-- An ascending list is told by its members. -/
theorem eq_of_ascending {xs ys : List UInt64} (hx : xs.Pairwise (· < ·)) (hy : ys.Pairwise (· < ·))
    (same : ∀ b, b ∈ xs ↔ b ∈ ys) : xs = ys := by
  have perm : xs.Perm ys := (List.perm_ext_iff_of_nodup (hx.imp UInt64.ne_of_lt)
    (hy.imp UInt64.ne_of_lt)).mpr same
  exact perm.eq_of_pairwise (fun a b _ _ hab hba => absurd hab (UInt64.lt_asymm hba)) hx hy

theorem forks_congr {s t : Schedule}
    (same : ∀ b, b ≠ 0 → (b ∈ t.activationBlocks ↔ b ∈ s.activationBlocks)) :
    t.forks = s.forks := by
  refine eq_of_ascending (forks_ascending t) (forks_ascending s) fun b => ?_
  rw [mem_forks, mem_forks]
  exact and_congr_left fun nonzero => same b nonzero

end Schedules

section Ascending

variable {forks : List UInt64} (ascending : forks.Pairwise (· < ·)) {head : UInt64}
include ascending

theorem mem_take_reached {b : UInt64} :
    b ∈ forks.take (reached forks head) ↔ b ∈ forks ∧ b ≤ head := by
  constructor
  · intro hmem
    obtain ⟨i, hi⟩ := List.mem_iff_getElem?.mp hmem
    rw [List.getElem?_take] at hi
    split at hi
    · rename_i before
      exact ⟨List.mem_of_getElem? hi, (le_head_iff ascending hi).mpr before⟩
    · cases hi
  · rintro ⟨hmem, hle⟩
    obtain ⟨i, hi⟩ := List.mem_iff_getElem?.mp hmem
    have before := (le_head_iff ascending hi).mp hle
    refine List.mem_of_getElem? (i := i) ?_
    rw [List.getElem?_take, if_pos before, hi]

/-- Behind the forks passed stands the least one above the head, if there is any. -/
theorem next_least :
    IsLeast {b | b ∈ forks ∧ head < b} (forks.getD (reached forks head) 0) ∨
      (∀ b ∈ forks, b ≤ head) ∧ forks.getD (reached forks head) 0 = 0 := by
  rw [List.getD_eq_getElem?_getD]
  cases hnext : forks[reached forks head]? with
  | none =>
    refine .inr ⟨fun b hb => ?_, rfl⟩
    obtain ⟨i, hi⟩ := List.mem_iff_getElem?.mp hb
    have within := (List.getElem?_eq_some_iff.mp hi).1
    have all := List.getElem?_eq_none_iff.mp hnext
    exact (le_head_iff ascending hi).mpr (by omega)
  | some f =>
    -- the forks behind this one are greater, those before it are passed
    have above : ¬ f ≤ head := fun hle => Nat.lt_irrefl _ ((le_head_iff ascending hnext).mp hle)
    refine .inl ⟨⟨List.mem_of_getElem? hnext, UInt64.not_le.mp above⟩, fun b hb => ?_⟩
    obtain ⟨hmem, later⟩ := hb
    obtain ⟨i, hi⟩ := List.mem_iff_getElem?.mp hmem
    have behind : ¬ i < reached forks head := fun hlt =>
      UInt64.not_le.mpr later ((le_head_iff ascending hi).mpr hlt)
    obtain ⟨hf, rfl⟩ := List.getElem?_eq_some_iff.mp hnext
    obtain ⟨hb, rfl⟩ := List.getElem?_eq_some_iff.mp hi
    rcases Nat.eq_or_lt_of_le (Nat.not_lt.mp behind) with same | hlt
    · simp [same]
    · exact UInt64.le_of_lt (List.pairwise_iff_getElem.mp ascending _ _ hf hb hlt)

end Ascending

section Identity

theorem passing_eq_update (h : Crc32.Hasher) (forks : List UInt64) :
    passing h forks = h.update (forks.flatMap fun b => Bytes.ofNat 8 b.toNat) := by
  induction forks generalizing h with
  | nil => rfl
  | cons fork rest ih =>
    rw [List.flatMap_cons, Crc32.Hasher.update_append, ← ih]
    rfl

theorem checksum_eq (genesis : Hash) (forks : List UInt64) :
    checksum genesis forks =
      Crc32.checksum (genesis.bytes ++ forks.flatMap fun b => Bytes.ofNat 8 b.toNat) := by
  rw [checksum, passing_eq_update, Crc32.checksum, Crc32.Hasher.update_append]

/-- A node names the checksum of its genesis and of the activation blocks that its head has reached,
each once and in ascending order, and the least of those above its head. So what it names depends on
the set of the blocks that are not zero only. -/
theorem fork_id_of_activation_blocks (s : Schedule) (genesis : Hash) (head : UInt64) :
    (∃ passed : List UInt64, passed.Pairwise (· < ·) ∧
        (∀ b, b ∈ passed ↔ b ∈ s.activationBlocks ∧ b ≠ 0 ∧ b ≤ head) ∧
        (s.forkId genesis head).checksum =
          Crc32.checksum (genesis.bytes ++ passed.flatMap fun b => Bytes.ofNat 8 b.toNat)) ∧
      (IsLeast {b | b ∈ s.activationBlocks ∧ head < b} (s.forkId genesis head).next ∨
        (∀ b ∈ s.activationBlocks, b ≤ head) ∧ (s.forkId genesis head).next = 0) ∧
      ∀ t : Schedule, (∀ b, b ≠ 0 → (b ∈ t.activationBlocks ↔ b ∈ s.activationBlocks)) →
        t.forkId genesis head = s.forkId genesis head := by
  have ascending := forks_ascending s
  have named : s.forkId genesis head = ⟨checksum genesis (s.forks.take (reached s.forks head)),
      s.forks.getD (reached s.forks head) 0⟩ := ofHead_eq genesis s.forks head
  refine ⟨⟨s.forks.take (reached s.forks head), ascending.sublist (List.take_sublist ..), ?_, ?_⟩,
    ?_, fun t same => ?_⟩
  · intro b
    rw [mem_take_reached ascending, mem_forks, and_assoc]
  · rw [named, checksum_eq]
  · have later : {b | b ∈ s.activationBlocks ∧ head < b} = {b | b ∈ s.forks ∧ head < b} := by
      ext b
      have nonzero : head < b → b ≠ 0 := by
        rintro hlt rfl
        exact UInt64.not_lt_zero hlt
      simp only [Set.mem_ofPred_eq, mem_forks]
      tauto
    have reached : (∀ b ∈ s.forks, b ≤ head) → ∀ b ∈ s.activationBlocks, b ≤ head := by
      intro all b hb
      by_cases zero : b = 0
      · simp [zero]
      · exact all b (mem_forks s |>.mpr ⟨hb, zero⟩)
    rw [later, named]
    exact (next_least ascending).imp_right fun none => ⟨reached none.1, none.2⟩
  · rw [Schedule.forkId, Schedule.forkId, forks_congr same]

theorem fork_id_of_activation_blocks_repeated :
    let genesis := 0xd4e56740f876aef8c010b86a40d5f56745a118d0906a34e69aec8c0db1cb8fa3#256
    let s : Schedule := ⟨1, [1150000, 7280000]⟩
    let t : Schedule := ⟨1, [0, 7280000, 1150000, 7280000, 0]⟩
    (∀ b, b ≠ 0 → (b ∈ t.activationBlocks ↔ b ∈ s.activationBlocks)) ∧
      t.forkId genesis 1150000 = ⟨0x97c2c34c, 7280000⟩ := by
  intro genesis s t
  have same : ∀ b, b ≠ 0 → (b ∈ t.activationBlocks ↔ b ∈ s.activationBlocks) := by
    intro b nonzero
    simp only [s, t, List.mem_cons, List.not_mem_nil, nonzero, false_or, or_false]
    tauto
  obtain ⟨-, -, unique⟩ := fork_id_of_activation_blocks s genesis 1150000
  exact ⟨same, (unique t same).trans (by decide +kernel)⟩

end Identity
end ChainSync.Fork
