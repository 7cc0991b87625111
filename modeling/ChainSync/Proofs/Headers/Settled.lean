import ChainSync.Proofs.Headers.Gaps
set_option autoImplicit false

/-!
Skeletons that repeat a height. Of headers at one height the last is the anchor, and nothing is to
be fetched between them.
-/

namespace ChainSync.HeaderFill

open Fetch

/-- The anchors that count. -/
def settle (origin : Header) : List Header → Header × List Header
  | [] => (origin, [])
  | s :: rest =>
    let (first, behind) := settle s rest
    if s.height = origin.height then (first, behind) else (origin, first :: behind)

section Settle

variable {origin : Header} {skeleton : List Header}

theorem settle_height (origin : Header) (skeleton : List Header) :
    (settle origin skeleton).1.height = origin.height := by
  induction skeleton generalizing origin with
  | nil => rfl
  | cons s rest ih =>
    simp only [settle]
    split
    · rename_i heq
      exact (ih s).trans heq
    · rfl

theorem settle_of_ascending {origin : Header} {skeleton : List Header}
    (ascending : (origin :: skeleton).Pairwise (·.height < ·.height)) :
    settle origin skeleton = (origin, skeleton) := by
  induction skeleton generalizing origin with
  | nil => rfl
  | cons s rest ih =>
    obtain ⟨hlt, hrest⟩ := List.pairwise_cons.mp ascending
    have hs := hlt s (List.mem_cons_self ..)
    simp only [settle, ih hrest]
    rw [if_neg (Nat.ne_of_gt hs)]

theorem settle_last (origin : Header) (skeleton : List Header) :
    ((settle origin skeleton).2.getLastD (settle origin skeleton).1).height =
      (skeleton.getLastD origin).height := by
  induction skeleton generalizing origin with
  | nil => rfl
  | cons s rest ih =>
    simp only [settle]
    split
    · rw [List.getLastD_cons, ih]
    · rw [List.getLastD_cons, List.getLastD_cons, ih]

variable (sorted : (origin :: skeleton).Pairwise (·.height ≤ ·.height))
include sorted

theorem settle_ascending :
    ((settle origin skeleton).1 :: (settle origin skeleton).2).Pairwise (·.height < ·.height) := by
  induction skeleton generalizing origin with
  | nil => exact List.pairwise_singleton ..
  | cons s rest ih =>
    obtain ⟨hle, hrest⟩ := List.pairwise_cons.mp sorted
    have hs := hle s (List.mem_cons_self ..)
    have hfirst := settle_height s rest
    have ascending := ih hrest
    simp only [settle]
    split
    · exact ascending
    · refine List.pairwise_cons.mpr ⟨fun g hg => ?_, ascending⟩
      change origin.height < g.height
      rcases List.mem_cons.mp hg with rfl | hg
      · omega
      · have := (List.pairwise_cons.mp ascending).1 g hg
        omega

theorem gaps_settle :
    (gaps origin.height skeleton).filter (·.count > 0) =
      gaps (settle origin skeleton).1.height (settle origin skeleton).2 := by
  induction skeleton generalizing origin with
  | nil => rfl
  | cons s rest ih =>
    obtain ⟨hle, hrest⟩ := List.pairwise_cons.mp sorted
    have hs := hle s (List.mem_cons_self ..)
    have hfirst := settle_height s rest
    have hgaps := ih hrest
    simp only [settle, gaps]
    split
    · rw [List.filter_cons_of_neg (by simp; omega), hgaps]
    · rw [List.filter_cons_of_pos (by simp; omega), hgaps, gaps, hfirst]

/-- A header at the height of the last entry takes its place. -/
theorem foldl_insert_settle (m : Positioned Header) (below : ∀ e ∈ m, e.1 < origin.height) :
    skeleton.foldl (fun m h => m.insert h.height h) (m ++ [(origin.height, origin)]) =
      m ++ ((settle origin skeleton).1 :: (settle origin skeleton).2).map
        fun h => (h.height, h) := by
  induction skeleton generalizing origin m with
  | nil => rfl
  | cons s rest ih =>
    obtain ⟨hle, hrest⟩ := List.pairwise_cons.mp sorted
    have hs := hle s (List.mem_cons_self ..)
    rw [List.foldl_cons]
    simp only [settle]
    split
    · rename_i heq
      rw [heq, Positioned.insert_append_self below, ← heq]
      exact ih hrest m (heq ▸ below)
    · rename_i hne
      have hlast : ∀ e ∈ m ++ [(origin.height, origin)], e.1 < s.height := by
        intro e he
        rcases List.mem_append.mp he with he | he
        · exact Nat.lt_of_lt_of_le (below e he) hs
        · rw [List.mem_singleton.mp he]
          exact Nat.lt_of_le_of_ne hs (Ne.symm hne)
      rw [Positioned.insert_behind hlast, ih hrest _ hlast, List.append_assoc]
      rfl

end Settle
end ChainSync.HeaderFill
