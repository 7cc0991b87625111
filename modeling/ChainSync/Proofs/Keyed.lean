import Mathlib.Data.List.Nodup
import Mathlib.Data.List.Perm.Basic
import ChainSync.Positioned
set_option autoImplicit false

/-!
Lists of pairs whose first components are distinct, as maps: what looking up, erasing and
changing an entry does to the list up to order.
-/

namespace ChainSync.Keyed

variable {κ β : Type} [BEq κ] [LawfulBEq κ]

theorem mem_of_lookup {l : List (κ × β)} {k : κ} {v : β} (h : l.lookup k = some v) :
    (k, v) ∈ l := by
  obtain ⟨l₁, l₂, rfl, _⟩ := List.lookup_eq_some_iff.mp h
  simp

theorem lookup_isSome_iff {l : List (κ × β)} {k : κ} :
    (l.lookup k).isSome ↔ k ∈ l.map Prod.fst := by
  simp [List.lookup_isSome_iff]

theorem lookup_eq_none_iff {l : List (κ × β)} {k : κ} :
    l.lookup k = none ↔ k ∉ l.map Prod.fst := by
  rw [← lookup_isSome_iff, Bool.not_eq_true, Option.isSome_eq_false_iff, Option.isNone_iff_eq_none]

theorem lookup_eq_some_iff {l : List (κ × β)} (hl : (l.map Prod.fst).Nodup) {k : κ} {v : β} :
    l.lookup k = some v ↔ (k, v) ∈ l := by
  refine ⟨mem_of_lookup, fun h => ?_⟩
  obtain ⟨l₁, l₂, rfl⟩ := List.append_of_mem h
  refine List.lookup_eq_some_iff.mpr ⟨l₁, l₂, rfl, fun e he => ?_⟩
  rw [List.map_append, List.nodup_append] at hl
  have hne := hl.2.2 e.1 (List.mem_map_of_mem he) k (by simp)
  simpa [bne_iff_ne] using hne.symm

omit [LawfulBEq κ] in
theorem map_fst_filter (l : List (κ × β)) (k : κ) :
    (l.filter (·.1 != k)).map Prod.fst = (l.map Prod.fst).filter (· != k) := by
  rw [List.filter_map]; rfl

omit [LawfulBEq κ] in
theorem nodup_filter {l : List (κ × β)} (hl : (l.map Prod.fst).Nodup) (k : κ) :
    ((l.filter (·.1 != k)).map Prod.fst).Nodup := by
  rw [map_fst_filter]; exact hl.filter _

/-- Erasing a key takes out the one entry it has. -/
theorem perm_cons_filter {l : List (κ × β)} (hl : (l.map Prod.fst).Nodup) {k : κ} {v : β}
    (h : (k, v) ∈ l) : l.Perm ((k, v) :: l.filter (·.1 != k)) := by
  obtain ⟨l₁, l₂, rfl⟩ := List.append_of_mem h
  rw [List.map_append, List.map_cons, List.nodup_middle, List.nodup_cons] at hl
  have keep : ∀ l' : List (κ × β), (∀ e ∈ l', e ∈ l₁ ++ l₂) → l'.filter (·.1 != k) = l' := by
    intro l' hsub
    refine List.filter_eq_self.mpr fun e he => ?_
    have hne : e.1 ≠ k := by
      rintro rfl
      have hm := List.mem_map_of_mem (f := Prod.fst) (hsub e he)
      rw [List.map_append] at hm
      exact hl.1 hm
    simpa using hne
  rw [List.filter_append, List.filter_cons_of_neg (by simp), keep l₁ (by simp +contextual),
    keep l₂ (by simp +contextual)]
  exact List.perm_middle

theorem filter_eq_self {l : List (κ × β)} {k : κ} (h : k ∉ l.map Prod.fst) :
    l.filter (·.1 != k) = l := by
  refine List.filter_eq_self.mpr fun e he => ?_
  have hne : e.1 ≠ k := by rintro rfl; exact h (List.mem_map_of_mem he)
  simpa using hne

/-- Where a map leaves the keys alone, a key is found with what its entry became. -/
theorem lookup_map {γ : Type} {f : κ × β → κ × γ} (keys : ∀ e, (f e).1 = e.1) (l : List (κ × β))
    (k : κ) : (l.map f).lookup k = (l.lookup k).map fun v => (f (k, v)).2 := by
  induction l with
  | nil => rfl
  | cons e l ih =>
    rw [List.map_cons, List.lookup_cons, List.lookup_cons, keys e]
    split
    · rename_i same
      rw [eq_of_beq same]
      rfl
    · exact ih

theorem lookup_filter_self (l : List (κ × β)) (k : κ) : (l.filter (·.1 != k)).lookup k = none := by
  rw [lookup_eq_none_iff, map_fst_filter, List.mem_filter]
  simp

/-- What is still found after a key was erased was there before. -/
theorem lookup_of_filter {l : List (κ × β)} {k k' : κ} {v : β}
    (h : (l.filter (·.1 != k)).lookup k' = some v) : l.lookup k' = some v := by
  have hne : k' ≠ k := by
    rintro rfl
    rw [lookup_filter_self] at h
    cases h
  induction l with
  | nil => cases h
  | cons e l ih =>
    rw [List.filter_cons] at h
    split at h
    · rw [List.lookup_cons] at h ⊢
      split at h
      · exact h
      · exact ih h
    · rename_i same
      have heq : e.1 = k := by simpa using same
      have hother : (k' == e.1) = false := by simpa [heq] using hne
      rw [List.lookup_cons, hother]
      exact ih h

end ChainSync.Keyed

namespace ChainSync.Positioned

variable {α : Type}

/-- The items at consecutive positions from `p`. -/
def numbered (p : Nat) : List α → Positioned α
  | [] => []
  | a :: rest => (p, a) :: numbered (p + 1) rest

theorem numbered_append (p : Nat) (xs ys : List α) :
    numbered p (xs ++ ys) = numbered p xs ++ numbered (p + xs.length) ys := by
  induction xs generalizing p with
  | nil => rfl
  | cons x xs ih => simp [numbered, ih, Nat.add_comm, Nat.add_left_comm]

theorem map_fst_numbered (p : Nat) (xs : List α) :
    (numbered p xs).map Prod.fst = List.range' p xs.length := by
  induction xs generalizing p with
  | nil => rfl
  | cons x xs ih => rw [numbered, List.map_cons, ih, List.length_cons, List.range'_succ]

theorem numbered_map {β : Type} (g : α → β) (p : Nat) (xs : List α) :
    numbered p (xs.map g) = (numbered p xs).map fun e => (e.1, g e.2) := by
  induction xs generalizing p with
  | nil => rfl
  | cons x xs ih => simp only [List.map_cons, numbered, ih]

theorem mem_numbered {p i : Nat} {a : α} {xs : List α} :
    (i, a) ∈ numbered p xs ↔ p ≤ i ∧ xs[i - p]? = some a := by
  induction xs generalizing p with
  | nil => simp [numbered]
  | cons x xs ih =>
    simp only [numbered, List.mem_cons, Prod.mk.injEq, ih]
    constructor
    · rintro (⟨rfl, rfl⟩ | ⟨hle, hx⟩)
      · simp
      · have hi : i - p = (i - (p + 1)) + 1 := by omega
        exact ⟨by omega, by rw [hi, List.getElem?_cons_succ]; exact hx⟩
    · rintro ⟨hle, hx⟩
      rcases Nat.eq_or_lt_of_le hle with rfl | hlt
      · exact .inl ⟨rfl, by simpa using hx.symm⟩
      · have hi : i - p = (i - (p + 1)) + 1 := by omega
        rw [hi, List.getElem?_cons_succ] at hx
        exact .inr ⟨hlt, hx⟩

/-- A position that was free is added; no other entry changes. -/
theorem insert_perm {p : Nat} {a : α} {m : Positioned α} (h : p ∉ m.map Prod.fst) :
    (insert p a m).Perm ((p, a) :: m) := by
  induction m with
  | nil => exact .refl _
  | cons e m ih =>
    obtain ⟨q, b⟩ := e
    simp only [List.map_cons, List.mem_cons, not_or] at h
    by_cases hlt : p < q
    · simp [insert, hlt]
    · simp only [insert, if_neg hlt, if_neg h.1]
      exact ((ih h.2).cons _).trans (.swap ..)

theorem insert_behind {p : Nat} {a : α} {m : Positioned α} (h : ∀ e ∈ m, e.1 < p) :
    insert p a m = m ++ [(p, a)] := by
  induction m with
  | nil => rfl
  | cons e m ih =>
    simp only [List.mem_cons, forall_eq_or_imp] at h
    rw [insert, if_neg (Nat.not_lt.mpr (Nat.le_of_lt h.1)), if_neg (Nat.ne_of_gt h.1), ih h.2,
      List.cons_append]

/-- The last entry is replaced. -/
theorem insert_append_self {p : Nat} {a b : α} {m : Positioned α} (h : ∀ e ∈ m, e.1 < p) :
    insert p a (m ++ [(p, b)]) = m ++ [(p, a)] := by
  induction m with
  | nil => simp [insert]
  | cons e m ih =>
    simp only [List.mem_cons, forall_eq_or_imp] at h
    rw [List.cons_append, insert, if_neg (Nat.not_lt.mpr (Nat.le_of_lt h.1)),
      if_neg (Nat.ne_of_gt h.1), ih h.2, List.cons_append]

theorem mem_of_mem_insert {p : Nat} {a : α} {m : Positioned α} {e : Nat × α}
    (h : e ∈ insert p a m) : e = (p, a) ∨ e ∈ m := by
  induction m with
  | nil => exact .inl (List.mem_singleton.mp h)
  | cons b m ih =>
    simp only [insert] at h
    split at h
    · exact List.mem_cons.mp h
    · split at h
      · rcases List.mem_cons.mp h with rfl | h
        · exact .inl rfl
        · exact .inr (List.mem_cons_of_mem _ h)
      · rcases List.mem_cons.mp h with rfl | h
        · exact .inr (List.mem_cons_self ..)
        · exact (ih h).imp_right (List.mem_cons_of_mem _)

/-- What stands in a map that was filled entry by entry. -/
theorem mem_foldl_insert {β : Type} {key : β → Nat} {value : β → α} {xs : List β}
    {m : Positioned α} {e : Nat × α}
    (h : e ∈ xs.foldl (fun m x => m.insert (key x) (value x)) m) :
    e ∈ m ∨ ∃ x ∈ xs, e = (key x, value x) := by
  induction xs generalizing m with
  | nil => exact .inl h
  | cons x xs ih =>
    rcases ih h with h | ⟨y, hy, rfl⟩
    · rcases mem_of_mem_insert h with rfl | h
      · exact .inr ⟨x, List.mem_cons_self .., rfl⟩
      · exact .inl h
    · exact .inr ⟨y, List.mem_cons_of_mem _ hy, rfl⟩

theorem isSome_insert {p q : Nat} {a : α} {m : Positioned α} (h : q = p ∨ (m.get? q).isSome) :
    ((m.insert p a).get? q).isSome := by
  rw [get?, Keyed.lookup_isSome_iff] at h ⊢
  induction m with
  | nil => simpa [insert] using h
  | cons e m ih =>
    simp only [insert]
    split
    · simpa using h
    · split
      · rename_i heq
        simp only [List.map_cons, List.mem_cons] at h ⊢
        rcases h with h | h | h
        · exact .inl h
        · exact .inl (h.trans heq.symm)
        · exact .inr h
      · simp only [List.map_cons, List.mem_cons] at h ⊢
        rcases h with h | h | h
        · exact .inr (ih (.inl h))
        · exact .inl h
        · exact .inr (ih (.inr h))

theorem insertAll_perm {p : Nat} (xs : List α) {m : Positioned α}
    (h : ∀ i, p ≤ i → i < p + xs.length → i ∉ m.map Prod.fst) :
    (insertAll m p xs).Perm (numbered p xs ++ m) := by
  induction xs generalizing p m with
  | nil => exact .refl _
  | cons x xs ih =>
    simp only [List.length_cons] at h
    have hp := insert_perm (a := x) (h p (Nat.le_refl _) (by omega))
    have hkeys := hp.map Prod.fst
    refine (ih fun i hle hlt hm => ?_).trans ?_
    · rw [hkeys.mem_iff, List.map_cons, List.mem_cons] at hm
      rcases hm with rfl | hm
      · omega
      · exact h i (by omega) (by omega) hm
    · simp only [numbered, List.cons_append]
      exact (hp.append_left _).trans List.perm_middle

end ChainSync.Positioned
