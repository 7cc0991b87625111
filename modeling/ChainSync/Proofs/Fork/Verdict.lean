import Mathlib.Data.List.Infix
import ChainSync.Fork.Filter
set_option autoImplicit false

/-!
How two schedules of forks see each other. A fork id names a prefix of a schedule by its checksum;
the verdict on it follows from how far the two schedules agree and how many forks each side has
passed.
-/

namespace ChainSync.Fork

/-- The checksum state after some forks. -/
def passing (h : Crc32.Hasher) (forks : List UInt64) : Crc32.Hasher :=
  forks.foldl (fun h f => h.update (Bytes.ofNat 8 f.toNat)) h

/-- The checksum of a chain that has passed these forks since its genesis. -/
def checksum (genesis : Hash) (forks : List UInt64) : UInt32 :=
  (passing (Crc32.Hasher.empty.update genesis.bytes) forks).finish

/-- How many forks stand before the first one that the head has not reached. -/
def reached (forks : List UInt64) (head : UInt64) : Nat := (forks.takeWhile (· ≤ head)).length

/-- How far two schedules agree. -/
def shared : List UInt64 → List UInt64 → Nat
  | f :: fs, g :: gs => if f = g then shared fs gs + 1 else 0
  | _, _ => 0

section Prefixes

variable (h : Crc32.Hasher) (forks : List UInt64) (head : UInt64)

theorem length_sums : (sums h forks).length = forks.length + 1 := by
  induction forks generalizing h with
  | nil => rfl
  | cons f fs ih => simp [sums, ih]

theorem sums_get {i : Nat} (hi : i ≤ forks.length) :
    (sums h forks)[i]? = some (passing h (forks.take i)).finish := by
  induction forks generalizing h i with
  | nil =>
    obtain rfl : i = 0 := Nat.le_zero.mp hi
    rfl
  | cons f fs ih =>
    cases i with
    | zero => rfl
    | succ i => simpa [sums, passing] using ih (h.update (Bytes.ofNat 8 f.toNat)) (Nat.le_of_succ_le_succ hi)

theorem walk_eq : Id.walk head h forks =
    ⟨(passing h (forks.take (reached forks head))).finish, forks.getD (reached forks head) 0⟩ := by
  induction forks generalizing h with
  | nil => rfl
  | cons f fs ih =>
    by_cases late : f > head
    · have hle : ¬ f ≤ head := UInt64.not_le.mpr late
      simp [Id.walk, reached, late, hle, passing]
    · have hle : f ≤ head := UInt64.not_lt.mp late
      have hrest := ih (h.update (Bytes.ofNat 8 f.toNat))
      rw [Id.walk, if_neg late, hrest]
      simp [reached, hle, passing]

theorem reached_le : reached forks head ≤ forks.length :=
  (List.takeWhile_sublist _).length_le

end Prefixes

section Ascending

variable {forks : List UInt64} (ascending : forks.Pairwise (· < ·)) {head : UInt64}
include ascending

/-- In an ascending schedule the forks passed are those not above the head. -/
theorem reached_eq_countP : reached forks head = forks.countP (· ≤ head) := by
  induction forks with
  | nil => rfl
  | cons f fs ih =>
    obtain ⟨above, hrest⟩ := List.pairwise_cons.mp ascending
    by_cases hle : f ≤ head
    · simp only [reached] at ih
      simp [reached, hle, ih hrest]
    · have none : fs.countP (· ≤ head) = 0 := by
        refine List.countP_eq_zero.mpr fun g hg => ?_
        have := above g hg
        simp only [decide_eq_true_eq, UInt64.le_iff_toNat_le, UInt64.lt_iff_toNat_lt] at *
        omega
      simp [reached, hle, none]

theorem le_head_iff {i : Nat} {f : UInt64} (hf : forks[i]? = some f) :
    f ≤ head ↔ i < reached forks head := by
  induction forks generalizing i with
  | nil => simp at hf
  | cons g fs ih =>
    obtain ⟨above, hrest⟩ := List.pairwise_cons.mp ascending
    by_cases hle : g ≤ head
    · cases i with
      | zero =>
        obtain rfl : g = f := by simpa using hf
        simp [reached, hle]
      | succ i =>
        rw [ih hrest (by simpa using hf)]
        simp [reached, hle]
    · have hlt : ¬ f ≤ head := by
        rcases List.mem_cons.mp (List.mem_of_getElem? hf) with rfl | hmem
        · exact hle
        · have := above f hmem
          simp only [UInt64.le_iff_toNat_le, UInt64.lt_iff_toNat_lt] at *
          omega
      simp [reached, hle, hlt]

end Ascending

section Shared

variable {A B : List UInt64}

theorem take_eq_take_iff {j : Nat} (ha : j ≤ A.length) (hb : j ≤ B.length) :
    A.take j = B.take j ↔ j ≤ shared A B := by
  induction A generalizing B j with
  | nil =>
    obtain rfl : j = 0 := Nat.le_zero.mp ha
    simp
  | cons f fs ih =>
    cases B with
    | nil =>
      obtain rfl : j = 0 := Nat.le_zero.mp hb
      simp
    | cons g gs =>
      cases j with
      | zero => simp
      | succ j =>
        have hrest := ih (Nat.le_of_succ_le_succ ha) (Nat.le_of_succ_le_succ hb)
        by_cases heq : f = g
        · simp [shared, heq, hrest]
        · simp [shared, heq]

theorem shared_le_left (A B : List UInt64) : shared A B ≤ A.length := by
  fun_induction shared A B with
  | case1 f fs gs ih => exact Nat.succ_le_succ ih
  | case2 => exact Nat.zero_le _
  | case3 => exact Nat.zero_le _

theorem shared_self (A : List UInt64) : shared A A = A.length := by
  induction A with
  | nil => rfl
  | cons f fs ih => simp [shared, ih]

theorem getElem?_eq_of_lt_shared {j : Nat} (hj : j < shared A B) : A[j]? = B[j]? := by
  fun_induction shared A B generalizing j with
  | case1 f fs gs ih =>
    cases j with
    | zero => rfl
    | succ j => simpa using ih (Nat.lt_of_succ_lt_succ hj)
  | case2 => omega
  | case3 => omega

/-- Where two schedules stop agreeing they do not name the same fork. -/
theorem getElem?_shared_ne {f : UInt64} (hf : A[shared A B]? = some f) :
    B[shared A B]? ≠ some f := by
  fun_induction shared A B with
  | case1 g fs gs ih => simpa using ih (by simpa using hf)
  | case2 g fs g' gs hne =>
    obtain rfl : g = f := by simpa using hf
    simpa using Ne.symm hne
  | case3 A B hne =>
    cases A with
    | nil => simp at hf
    | cons g fs =>
      cases B with
      | nil => simp
      | cons g' gs => exact absurd rfl (hne g fs g' gs rfl)

end Shared

section Verdict

variable {genesis : Hash} {A B : List UInt64} {a b : UInt64}

/-- No two prefixes of either schedule have a checksum in common. -/
def Distinct (genesis : Hash) (A B : List UInt64) : Prop :=
  ∀ p q, (p <+: A ∨ p <+: B) → (q <+: A ∨ q <+: B) → checksum genesis p = checksum genesis q → p = q

/-- The checksums of two schedules are compared prefix by prefix. -/
theorem distinct_of_inits (separate : ∀ p ∈ A.inits ++ B.inits, ∀ q ∈ A.inits ++ B.inits,
    checksum genesis p = checksum genesis q → p = q) : Distinct genesis A B := by
  intro p q hp hq
  refine separate p ?_ q ?_ <;> simpa only [List.mem_append, List.mem_inits]

theorem ofHead_eq (genesis : Hash) (forks : List UInt64) (head : UInt64) :
    Id.ofHead genesis forks head = ⟨checksum genesis (forks.take (reached forks head)),
      forks.getD (reached forks head) 0⟩ := walk_eq _ _ _

theorem length_ofSchedule_sums (genesis : Hash) (forks : List UInt64) (head : UInt64) :
    (Filter.ofSchedule genesis forks head).sums.length = forks.length + 1 := length_sums _ _

/-- A remote checksum stands where the schedules still agree, and nowhere else. -/
theorem sum_eq_iff (distinct : Distinct genesis A B) {m : Nat} {x : UInt32}
    (hx : (Filter.ofSchedule genesis A a).sums[m]? = some x) :
    x = (Id.ofHead genesis B b).checksum ↔ m = reached B b ∧ reached B b ≤ shared A B := by
  have hm : m ≤ A.length := by
    have := (List.getElem?_eq_some_iff.mp hx).1
    rw [length_ofSchedule_sums] at this
    omega
  have hsum : (Filter.ofSchedule genesis A a).sums[m]? = some (checksum genesis (A.take m)) :=
    sums_get _ _ hm
  obtain rfl := Option.some.inj (hx.symm.trans hsum)
  have hj := reached_le B b
  rw [ofHead_eq]
  generalize reached B b = j at hj
  constructor
  · intro heq
    have same := distinct _ _ (.inl (List.take_prefix ..)) (.inr (List.take_prefix ..)) heq
    have hlen := congrArg List.length same
    rw [List.length_take, List.length_take, Nat.min_eq_left hm, Nat.min_eq_left hj] at hlen
    subst hlen
    exact ⟨rfl, (take_eq_take_iff hm hj).mp same⟩
  · rintro ⟨rfl, agreed⟩
    rw [(take_eq_take_iff hm hj).mpr agreed]

/-- Among the forks passed a remote is found only if it stands at one of them. -/
theorem findIdx?_sums (distinct : Distinct genesis A B) {i : Nat} (hi : i ≤ A.length) :
    ((Filter.ofSchedule genesis A a).sums.take i).findIdx?
        (· == (Id.ofHead genesis B b).checksum) =
      if reached B b < i ∧ reached B b ≤ shared A B then some (reached B b) else none := by
  have hlen := length_ofSchedule_sums genesis A a
  have stands {m : Nat} {x : UInt32} := @sum_eq_iff genesis A B a b distinct m x
  split
  · rename_i found
    refine List.findIdx?_eq_some_iff_getElem.mpr ⟨by simp; omega, ?_, fun m hm => ?_⟩
    · rw [List.getElem_take, beq_iff_eq]
      exact (stands (List.getElem?_eq_getElem _)).mpr ⟨rfl, found.2⟩
    · rw [List.getElem_take, beq_iff_eq]
      intro heq
      have := ((stands (List.getElem?_eq_getElem _)).mp heq).1
      omega
  · rename_i missing
    refine List.findIdx?_eq_none_iff.mpr fun x hx => ?_
    obtain ⟨m, hm, rfl⟩ := List.getElem_of_mem hx
    rw [List.length_take] at hm
    rw [List.getElem_take, beq_eq_false_iff_ne]
    intro heq
    obtain ⟨rfl, agreed⟩ := (stands (List.getElem?_eq_getElem _)).mp heq
    exact missing ⟨by omega, agreed⟩

theorem mem_drop_sums (distinct : Distinct genesis A B) {i : Nat} :
    (Id.ofHead genesis B b).checksum ∈ (Filter.ofSchedule genesis A a).sums.drop (i + 1) ↔
      i < reached B b ∧ reached B b ≤ shared A B := by
  have hlen := length_ofSchedule_sums genesis A a
  have stands {m : Nat} {x : UInt32} := @sum_eq_iff genesis A B a b distinct m x
  constructor
  · intro hmem
    obtain ⟨m, hm, heq⟩ := List.getElem_of_mem hmem
    rw [List.getElem_drop] at heq
    obtain ⟨hreached, agreed⟩ := (stands (List.getElem?_eq_getElem _)).mp heq
    exact ⟨by omega, agreed⟩
  · rintro ⟨hlt, agreed⟩
    have hle := shared_le_left A B
    have hbound : reached B b < (Filter.ofSchedule genesis A a).sums.length := by omega
    have heq := (stands (List.getElem?_eq_getElem hbound)).mpr ⟨rfl, agreed⟩
    refine List.mem_of_getElem? (i := reached B b - (i + 1)) ?_
    rw [List.getElem?_drop, Nat.add_sub_cancel' hlt, List.getElem?_eq_getElem hbound, heq]

/-- The verdict in terms of positions only. -/
theorem validate_eq (distinct : Distinct genesis A B) (a b : UInt64) :
    (Filter.ofSchedule genesis A a).validate (Id.ofHead genesis B b) =
      if shared A B < reached B b then .error (.localIncompatibleOrStale (Id.ofHead genesis B b))
      else if reached B b = reached A a then
        if B.getD (reached B b) 0 > 0 ∧ a ≥ B.getD (reached B b) 0 then
          .error (.localIncompatibleOrStale (Id.ofHead genesis B b))
        else .ok ()
      else if reached B b < reached A a ∧ A.getD (reached B b) 0 ≠ B.getD (reached B b) 0 then
        .error (.remoteStale (Id.ofHead genesis B b))
      else .ok () := by
  have hi := reached_le A a
  have hlen := length_ofSchedule_sums genesis A a
  have hpassed : (Filter.ofSchedule genesis A a).passed = reached A a := rfl
  have hnext : (Id.ofHead genesis B b).next = B.getD (reached B b) 0 := by rw [ofHead_eq]
  have here : (Filter.ofSchedule genesis A a).sums.getD (reached A a) 0 =
      (Id.ofHead genesis B b).checksum ↔ reached A a = reached B b ∧ reached B b ≤ shared A B := by
    have hget := List.getElem?_eq_getElem (l := (Filter.ofSchedule genesis A a).sums)
      (i := reached A a) (by omega)
    rw [List.getD_eq_getElem?_getD, hget, Option.getD_some]
    exact sum_eq_iff distinct hget
  unfold Filter.validate
  rw [hpassed, findIdx?_sums distinct hi, hnext]
  simp only [here, List.contains_iff_mem, mem_drop_sums distinct]
  by_cases diverged : shared A B < reached B b
  · have hno : ¬ reached B b ≤ shared A B := Nat.not_le.mpr diverged
    simp [diverged, hno]
  · have agreed : reached B b ≤ shared A B := Nat.not_lt.mp diverged
    rcases Nat.lt_trichotomy (reached B b) (reached A a) with hlt | heq | hgt
    · simp [diverged, agreed, hlt, Nat.ne_of_lt hlt, Nat.ne_of_gt hlt, Filter.ofSchedule]
    · simp [diverged, agreed, ← heq, Filter.ofSchedule]
    · simp [diverged, agreed, hgt, Nat.ne_of_lt hgt, Nat.ne_of_gt hgt, Nat.not_lt_of_gt hgt]

/-- What a remote announces behind the forks that it has passed, if that is at or below a head. -/
theorem announced_iff (nonzero : ∀ f ∈ B, f ≠ 0) (j : Nat) (a : UInt64) :
    (B.getD j 0 > 0 ∧ a ≥ B.getD j 0) ↔ ∃ f, B[j]? = some f ∧ f ≤ a := by
  rw [List.getD_eq_getElem?_getD]
  cases hf : B[j]? with
  | none => simp
  | some f =>
    have hne := nonzero f (List.mem_of_getElem? hf)
    have hpos : 0 < f := UInt64.pos_iff_ne_zero.mpr hne
    simp [hpos]

/-- The local head is below every fork that it has not passed. -/
theorem not_announced_of_lt (ascending : A.Pairwise (· < ·)) {j : Nat} (hj : j < shared A B)
    (here : j = reached A a) : ¬ ∃ f, B[j]? = some f ∧ f ≤ a := by
  rintro ⟨f, hf, hle⟩
  have same := getElem?_eq_of_lt_shared hj
  have := (le_head_iff ascending (same.trans hf)).mp hle
  omega

/-- A remote behind us knows the fork that follows exactly if the schedules agree on it. -/
theorem next_ne_iff (nonzero : ∀ f ∈ A, f ≠ 0) {j : Nat} (agreed : j ≤ shared A B)
    (hj : j < A.length) : A.getD j 0 ≠ B.getD j 0 ↔ j = shared A B := by
  rw [List.getD_eq_getElem?_getD, List.getD_eq_getElem?_getD]
  constructor
  · intro hne
    by_contra hlt
    exact hne (by rw [getElem?_eq_of_lt_shared (Nat.lt_of_le_of_ne agreed hlt)])
  · rintro rfl
    have hf := List.getElem?_eq_getElem hj
    have hother := getElem?_shared_ne hf
    have hne := nonzero _ (List.getElem_mem hj)
    rw [hf, Option.getD_some]
    cases hg : B[shared A B]? with
    | none => simpa using hne
    | some g => simpa [hg, eq_comm] using hother

/-- The remote stands where the schedules part, and we have gone on from there. -/
def Stale (k i j : Nat) : Prop := j = k ∧ k < i

/-- Both stand where the schedules part, and the remote is to fork at or below our head. -/
def Announced (B : List UInt64) (a : UInt64) (k i j : Nat) : Prop :=
  j = k ∧ k = i ∧ ∃ f, B[k]? = some f ∧ f ≤ a

theorem validate_cases (ascending : A.Pairwise (· < ·)) (nonzeroA : ∀ f ∈ A, f ≠ 0)
    (nonzeroB : ∀ f ∈ B, f ≠ 0) (distinct : Distinct genesis A B) (a b : UInt64) :
    let k := shared A B
    let i := reached A a
    let j := reached B b
    let remote := Id.ofHead genesis B b
    let verdict := (Filter.ofSchedule genesis A a).validate remote
    (k < j ∨ Announced B a k i j) ∧ verdict = .error (.localIncompatibleOrStale remote) ∨
      Stale k i j ∧ verdict = .error (.remoteStale remote) ∨
        (j ≤ k ∧ ¬ Stale k i j ∧ ¬ Announced B a k i j) ∧ verdict = .ok () := by
  intro k i j remote verdict
  have hbound : i ≤ A.length := reached_le A a
  have eq : verdict = _ := validate_eq distinct a b
  by_cases diverged : k < j
  · rw [if_pos diverged] at eq
    exact .inl ⟨.inl diverged, eq⟩
  rw [if_neg diverged] at eq
  have agreed : j ≤ k := Nat.not_lt.mp diverged
  rcases Nat.lt_trichotomy j i with hlt | here | hgt
  · have hne := next_ne_iff nonzeroA agreed (Nat.lt_of_lt_of_le hlt hbound)
    have unannounced : ¬ Announced B a k i j := fun h => by
      have := h.1
      have := h.2.1
      omega
    rw [if_neg (Nat.ne_of_lt hlt)] at eq
    by_cases parting : j = k
    · rw [if_pos ⟨hlt, hne.mpr parting⟩] at eq
      exact .inr (.inl ⟨⟨parting, parting ▸ hlt⟩, eq⟩)
    · rw [if_neg fun h => parting (hne.mp h.2)] at eq
      exact .inr (.inr ⟨⟨agreed, fun h => parting h.1, unannounced⟩, eq⟩)
  · have hnext := announced_iff nonzeroB j a
    have current : ¬ Stale k i j := fun h => by
      have := h.1
      have := h.2
      omega
    rw [if_pos here] at eq
    by_cases told : ∃ f, B[j]? = some f ∧ f ≤ a
    · rw [if_pos (hnext.mpr told)] at eq
      have parting : j = k := by
        by_contra hne
        exact not_announced_of_lt ascending (Nat.lt_of_le_of_ne agreed hne) here told
      exact .inl ⟨.inr ⟨parting, parting ▸ here, parting ▸ told⟩, eq⟩
    · rw [if_neg fun h => told (hnext.mp h)] at eq
      exact .inr (.inr ⟨⟨agreed, current, fun h => told (h.1.symm ▸ h.2.2)⟩, eq⟩)
  · rw [if_neg (Nat.ne_of_gt hgt), if_neg fun h => Nat.lt_asymm hgt h.1] at eq
    refine .inr (.inr ⟨⟨agreed, fun h => ?_, fun h => ?_⟩, eq⟩)
    · have := h.1
      have := h.2
      omega
    · have := h.1
      have := h.2.1
      omega

/-- The verdict depends on which of its three conditions holds, and exactly one does. -/
theorem validate_iff (ascending : A.Pairwise (· < ·)) (nonzeroA : ∀ f ∈ A, f ≠ 0)
    (nonzeroB : ∀ f ∈ B, f ≠ 0) (distinct : Distinct genesis A B) (a b : UInt64) :
    let k := shared A B
    let i := reached A a
    let j := reached B b
    let remote := Id.ofHead genesis B b
    let verdict := (Filter.ofSchedule genesis A a).validate remote
    (verdict = .ok () ↔ j ≤ k ∧ ¬ Stale k i j ∧ ¬ Announced B a k i j) ∧
      (verdict = .error (.remoteStale remote) ↔ Stale k i j) ∧
      (verdict = .error (.localIncompatibleOrStale remote) ↔ k < j ∨ Announced B a k i j) := by
  intro k i j remote verdict
  have unstale : k < j ∨ Announced B a k i j → ¬ Stale k i j := by
    rintro (hlt | ⟨-, here, -⟩) ⟨hjk, hki⟩ <;> omega
  have barred : k < j ∨ Announced B a k i j → ¬ (j ≤ k ∧ ¬ Stale k i j ∧ ¬ Announced B a k i j) := by
    rintro (hlt | told) ⟨hle, -, untold⟩
    · omega
    · exact untold told
  have possible : (k < j ∨ Announced B a k i j) ∧ verdict = .error (.localIncompatibleOrStale remote) ∨
      Stale k i j ∧ verdict = .error (.remoteStale remote) ∨
        (j ≤ k ∧ ¬ Stale k i j ∧ ¬ Announced B a k i j) ∧ verdict = .ok () :=
    validate_cases ascending nonzeroA nonzeroB distinct a b
  rcases possible with ⟨cond, h⟩ | ⟨cond, h⟩ | ⟨cond, h⟩ <;> rw [h]
  · exact ⟨⟨nofun, fun accepted => absurd accepted (barred cond)⟩,
      ⟨nofun, fun stale => absurd stale (unstale cond)⟩, ⟨fun _ => cond, fun _ => rfl⟩⟩
  · exact ⟨⟨nofun, fun accepted => absurd cond accepted.2.1⟩,
      ⟨fun _ => cond, fun _ => rfl⟩, ⟨nofun, fun refused => absurd cond (unstale refused)⟩⟩
  · exact ⟨⟨fun _ => cond, fun _ => rfl⟩,
      ⟨nofun, fun stale => absurd stale cond.2.1⟩, ⟨nofun, fun refused => absurd cond (barred refused)⟩⟩

/-- Two nodes with one schedule part nowhere. -/
theorem accepts_same (A : List UInt64) (a b : UInt64) :
    reached A b ≤ shared A A ∧ ¬ Stale (shared A A) (reached A a) (reached A b) ∧
      ¬ Announced A a (shared A A) (reached A a) (reached A b) := by
  have ha := reached_le A a
  have hb := reached_le A b
  rw [shared_self]
  refine ⟨hb, fun ⟨_, beyond⟩ => by omega, fun ⟨_, _, f, hf, _⟩ => ?_⟩
  have := (List.getElem?_eq_some_iff.mp hf).1
  omega

/-- A fork that the other schedule lacks stands beyond the point where they part. -/
theorem shared_lt_of_missing (ascending : B.Pairwise (· < ·)) {f : UInt64} (hmem : f ∈ B)
    (hle : f ≤ b) (missing : f ∉ A) : shared A B < reached B b := by
  obtain ⟨m, hm⟩ := List.mem_iff_getElem?.mp hmem
  have passed := (le_head_iff ascending hm).mp hle
  by_contra hge
  have same := getElem?_eq_of_lt_shared (A := A) (B := B) (j := m) (by omega)
  exact missing (List.mem_of_getElem? (same.trans hm))

/-- A remote is accepted as long as the schedules agree on all that it has passed, unless it stops
where they part and we have gone on, or announces there what we have gone past. So nodes with one
schedule accept each other, and nobody is accepted who passed a fork that our schedule lacks. -/
theorem verdict_of_schedules (genesis : Hash) {A B : List UInt64}
    (ascendingA : A.Pairwise (· < ·)) (ascendingB : B.Pairwise (· < ·))
    (nonzeroA : ∀ f ∈ A, f ≠ 0) (nonzeroB : ∀ f ∈ B, f ≠ 0) (distinct : Distinct genesis A B)
    (a b : UInt64) :
    let k := shared A B
    let i := A.countP (· ≤ a)
    let j := B.countP (· ≤ b)
    let remote := Id.ofHead genesis B b
    let verdict := (Filter.ofSchedule genesis A a).validate remote
    (verdict = .ok () ↔ j ≤ k ∧ ¬ Stale k i j ∧ ¬ Announced B a k i j) ∧
      (verdict = .error (.remoteStale remote) ↔ Stale k i j) ∧
      (verdict = .error (.localIncompatibleOrStale remote) ↔ k < j ∨ Announced B a k i j) ∧
      (A = B → verdict = .ok ()) ∧
      ((∃ f ∈ B, f ≤ b ∧ f ∉ A) → verdict ≠ .ok ()) := by
  intro k i j remote verdict
  have hi : reached A a = i := reached_eq_countP ascendingA
  have hj : reached B b = j := reached_eq_countP ascendingB
  have conditions := validate_iff ascendingA nonzeroA nonzeroB distinct a b
  simp only [hi, hj] at conditions
  obtain ⟨accepted, stale, incompatible⟩ := conditions
  refine ⟨accepted, stale, incompatible, fun same => accepted.mpr ?_, ?_⟩
  · subst same
    have := accepts_same A a b
    rwa [hi, hj] at this
  · rintro ⟨f, hmem, hle, missing⟩ hok
    have beyond : k < j := hj ▸ shared_lt_of_missing ascendingB hmem hle missing
    have within := (accepted.mp hok).1
    omega

/-- A remote that stopped before its third fork, seen from a node that has passed another one. -/
theorem stale_before_third_fork :
    let genesis := 0xd4e56740f876aef8c010b86a40d5f56745a118d0906a34e69aec8c0db1cb8fa3#256
    let remote := Id.ofHead genesis [1150000, 1920000, 2675000] 2000000
    (Filter.ofSchedule genesis [1150000, 1920000, 2463000] 2463000).validate remote =
      .error (.remoteStale remote) :=
  have judged := verdict_of_schedules
    0xd4e56740f876aef8c010b86a40d5f56745a118d0906a34e69aec8c0db1cb8fa3#256
    (A := [1150000, 1920000, 2463000]) (B := [1150000, 1920000, 2675000])
    (by decide) (by decide) (by simp) (by simp) (distinct_of_inits (by decide +kernel))
    2463000 2000000
  judged.2.1.mpr ⟨by decide, by decide⟩

end Verdict
end ChainSync.Fork
