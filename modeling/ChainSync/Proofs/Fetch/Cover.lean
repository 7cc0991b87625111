import Mathlib.Data.List.Basic
import ChainSync.Fetch.Queue
import ChainSync.Proofs.Keyed
set_option autoImplicit false

/-!
How often a list of ranges holds a position, and ranges that follow each other without gaps.
-/

namespace ChainSync

@[simp] theorem Range.contains_iff (r : Range) (p : Nat) :
    r.contains p = true ↔ r.start ≤ p ∧ p < r.start + r.count := by
  rw [contains, Bool.and_eq_true, decide_eq_true_eq, decide_eq_true_eq, stop]

theorem Range.contains_of_within {part whole : Range} {p : Nat} (h : part.contains p)
    (first : whole.start ≤ part.start)
    (last : part.start + part.count ≤ whole.start + whole.count) : whole.contains p := by
  rw [Range.contains_iff] at h ⊢
  omega

namespace Fetch

/-- The number of ranges that hold the position. -/
def cover (rs : List Range) (p : Nat) : Nat := rs.countP (·.contains p)

@[simp] theorem cover_nil (p : Nat) : cover [] p = 0 := rfl

@[simp] theorem cover_cons (r : Range) (rs : List Range) (p : Nat) :
    cover (r :: rs) p = cover rs p + if r.start ≤ p ∧ p < r.start + r.count then 1 else 0 := by
  simp only [cover, List.countP_cons, Range.contains_iff]

@[simp] theorem cover_append (rs ss : List Range) (p : Nat) :
    cover (rs ++ ss) p = cover rs p + cover ss p := List.countP_append ..

theorem cover_perm {rs ss : List Range} (h : rs.Perm ss) (p : Nat) : cover rs p = cover ss p :=
  h.countP_eq _

theorem cover_pos {rs : List Range} {r : Range} {p : Nat} (hr : r ∈ rs) (hp : r.start ≤ p)
    (hs : p < r.start + r.count) : 0 < cover rs p :=
  List.countP_pos_iff.mpr ⟨r, hr, (r.contains_iff p).mpr ⟨hp, hs⟩⟩

/-- Two ranges of a list that holds every position at most once do not meet. -/
theorem pairwise_of_cover_le_one (rs : List Range) (h : ∀ p, cover rs p ≤ 1)
    (filled : ∀ r ∈ rs, 0 < r.count) : rs.Pairwise (fun a b => a.overlaps b = false) := by
  induction rs with
  | nil => exact .nil
  | cons r rs ih =>
    simp only [List.mem_cons, forall_eq_or_imp] at filled
    refine .cons (fun s hs => ?_) (ih (fun p => ?_) filled.2)
    · by_contra hov
      rw [Range.overlaps, Bool.not_eq_false, Bool.and_eq_true, decide_eq_true_eq,
        decide_eq_true_eq, Range.stop, Range.stop] at hov
      -- the greater of the two starts lies in both
      have hm := h (max r.start s.start)
      have hpos := cover_pos (p := max r.start s.start) hs (by omega)
        (by have := filled.2 s hs; omega)
      rw [cover_cons, if_pos (by omega)] at hm
      omega
    · have hp := h p
      rw [cover_cons] at hp
      omega

/-- The ranges fill everything from `start` up to `stop`, each from where the one before it ends. -/
def Tiles (start : Nat) : List Range → Nat → Prop
  | [], stop => start = stop
  | r :: rest, stop => r.start = start ∧ Tiles r.stop rest stop

theorem Tiles.le {start stop : Nat} {rs : List Range} (h : Tiles start rs stop) : start ≤ stop := by
  induction rs generalizing start with
  | nil => exact Nat.le_of_eq h
  | cons r rest ih =>
    have hrest := ih h.2
    rw [Range.stop] at hrest
    have := h.1
    omega

theorem Tiles.cover {start stop : Nat} {rs : List Range} (h : Tiles start rs stop) (p : Nat) :
    cover rs p = if start ≤ p ∧ p < stop then 1 else 0 := by
  induction rs generalizing start with
  | nil => rw [cover_nil, if_neg (by have : start = stop := h; omega)]
  | cons r rest ih =>
    have hle := h.2.le
    rw [cover_cons, ih h.2]
    obtain ⟨rfl, _⟩ := h
    rw [Range.stop] at hle ⊢
    split_ifs <;> omega

theorem Tiles.filter {start stop : Nat} {rs : List Range} (h : Tiles start rs stop) :
    Tiles start (rs.filter (·.count > 0)) stop := by
  induction rs generalizing start with
  | nil => exact h
  | cons r rest ih =>
    by_cases hr : r.count > 0
    · rw [List.filter_cons_of_pos (by simpa using hr)]
      exact ⟨h.1, ih h.2⟩
    · rw [List.filter_cons_of_neg (by simpa using hr)]
      have hstop : r.stop = start := by rw [Range.stop, h.1]; omega
      exact hstop ▸ ih h.2

theorem Tiles.start_eq {start stop : Nat} {rs : List Range} (h : Tiles start rs stop)
    (hne : rs = [] → start = 0) : (rs.head?.map (·.start)).getD 0 = start := by
  cases rs with
  | nil => simpa using (hne rfl).symm
  | cons r rest => simpa using h.1

theorem Tiles.stop_eq {start stop : Nat} {rs : List Range} (h : Tiles start rs stop) :
    (rs.getLast?.map (·.stop)).getD start = stop := by
  induction rs generalizing start with
  | nil => exact h
  | cons r rest ih =>
    cases rest with
    | nil =>
      have hr : r.stop = stop := h.2
      simpa using hr
    | cons s rest =>
      have hrest := ih h.2
      simpa [List.getLast?_cons] using hrest

theorem tiles_cut (size start count : Nat) :
    Tiles start (cut size start count) (start + count) := by
  fun_induction cut size start count with
  | case1 => simp [Tiles]
  | case2 start count hc n ih =>
    refine ⟨rfl, ?_⟩
    have hn : start + n + (count - n) = start + count := by omega
    simpa [Range.stop, hn] using ih

end Fetch
end ChainSync
