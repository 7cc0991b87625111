import ChainSync.Proofs.Rlp.Strings
set_option autoImplicit false

/-!
Encodings that tell where they end, and lists of them. A length has to fit eight bytes for that;
what no machine can hold is not written in a form that can be told apart.
-/

namespace ChainSync.Rlp

structure Delimited {α : Type} (enc : α → Bytes) : Prop where
  nonempty : ∀ x, enc x ≠ []
  append_inj : ∀ {x y : α} {s t : Bytes}, (enc x).length < 2 ^ 64 → (enc y).length < 2 ^ 64 →
    enc x ++ s = enc y ++ t → x = y ∧ s = t

variable {α : Type} {enc : α → Bytes}

theorem Delimited.inj (h : Delimited enc) {x y : α} (hx : (enc x).length < 2 ^ 64)
    (heq : enc x = enc y) : x = y := by
  have hy : (enc y).length < 2 ^ 64 := heq ▸ hx
  have happend : enc x ++ [] = enc y ++ [] := by rw [heq]
  exact (h.append_inj hx hy happend).1

theorem Delimited.flatten_inj (h : Delimited enc) {xs ys : List α}
    (hlen : (xs.map enc).flatten.length < 2 ^ 64)
    (heq : (xs.map enc).flatten = (ys.map enc).flatten) : xs = ys := by
  induction xs generalizing ys with
  | nil =>
    cases ys with
    | nil => rfl
    | cons y ys =>
      rw [List.map_nil, List.flatten_nil, List.map_cons, List.flatten_cons, eq_comm,
        List.append_eq_nil_iff] at heq
      exact absurd heq.1 (h.nonempty y)
  | cons x xs ih =>
    cases ys with
    | nil =>
      rw [List.map_nil, List.flatten_nil, List.map_cons, List.flatten_cons,
        List.append_eq_nil_iff] at heq
      exact absurd heq.1 (h.nonempty x)
    | cons y ys =>
      have hlen' := hlen
      rw [heq] at hlen'
      rw [List.map_cons, List.map_cons, List.flatten_cons, List.flatten_cons] at heq
      rw [List.map_cons, List.flatten_cons, List.length_append] at hlen hlen'
      obtain ⟨rfl, hrest⟩ := h.append_inj (by omega) (by omega) heq
      rw [ih (by omega) hrest]

theorem list_eq_record (items : List Bytes) : list items = record items := by
  cases items <;> simp only [record_eq] <;> rfl

theorem length_flatten_lt_record (items : List Bytes) :
    items.flatten.length < (record items).length := by
  have hhead : 0 < (listHead items.flatten.length).length := by
    unfold listHead
    split <;> simp
  rw [record_eq, List.length_append]
  omega

theorem listHead_form {n : Nat} (hn : n < 2 ^ 64) :
    ∃ head tail, listHead n = head :: tail ∧
      ((n < 56 ∧ head.toNat = 192 + n ∧ tail = []) ∨
        (247 < head.toNat ∧ head.toNat = 247 + (Bytes.minimal n).length ∧
          tail = Bytes.minimal n)) := by
  unfold listHead
  by_cases hs : n < 56
  · rw [if_pos hs]
    exact ⟨_, [], rfl, .inl ⟨hs, toNat_ofNat_add (by omega), rfl⟩⟩
  · rw [if_neg hs]
    have hmax : (Bytes.minimal n).length ≤ 8 := Bytes.length_minimal_le (by simpa using hn)
    have hpos : 0 < (Bytes.minimal n).length := Bytes.length_minimal_pos (by omega)
    have hhead := toNat_ofNat_add (a := 0xf7) (n := (Bytes.minimal n).length) (by omega)
    exact ⟨_, _, rfl, .inr ⟨by omega, hhead, rfl⟩⟩

theorem listHead_append_inj {m n : Nat} {s t : Bytes} (hm : m < 2 ^ 64) (hn : n < 2 ^ 64)
    (h : listHead m ++ s = listHead n ++ t) : m = n ∧ s = t := by
  obtain ⟨a, xs, ex, fx⟩ := listHead_form hm
  obtain ⟨b, ys, ey, fy⟩ := listHead_form hn
  rw [ex, ey, List.cons_append, List.cons_append] at h
  obtain ⟨rfl, tail⟩ := List.cons.inj h
  rcases fx with ⟨lx, hx, rfl⟩ | ⟨lx, hx, rfl⟩ <;>
    rcases fy with ⟨ly, hy, rfl⟩ | ⟨ly, hy, rfl⟩ <;> try omega
  · exact ⟨by omega, tail⟩
  · obtain ⟨hlen, rest⟩ := List.append_inj tail (by omega)
    have hv := congrArg Bytes.toNat hlen
    rw [Bytes.toNat_minimal, Bytes.toNat_minimal] at hv
    exact ⟨hv, rest⟩

theorem record_append_inj {xs ys : List Bytes} {s t : Bytes}
    (hx : (record xs).length < 2 ^ 64) (hy : (record ys).length < 2 ^ 64)
    (h : record xs ++ s = record ys ++ t) : xs.flatten = ys.flatten ∧ s = t := by
  have lx := length_flatten_lt_record xs
  have ly := length_flatten_lt_record ys
  rw [record_eq, record_eq, List.append_assoc, List.append_assoc] at h
  obtain ⟨hlen, hrest⟩ := listHead_append_inj (by omega) (by omega) h
  exact List.append_inj hrest hlen

/-- Records whose payload tells their value. -/
theorem Delimited.ofRecord {fields : α → List Bytes}
    (h : ∀ x y, (record (fields x)).length < 2 ^ 64 →
      (fields x).flatten = (fields y).flatten → x = y) :
    Delimited fun x => record (fields x) := by
  refine ⟨fun x hx => ?_, fun hx hy heq => ?_⟩
  · have hpos := length_flatten_lt_record (fields x)
    rw [hx] at hpos
    exact Nat.not_lt_zero _ hpos
  · obtain ⟨hflat, hrest⟩ := record_append_inj hx hy heq
    exact ⟨h _ _ hx hflat, hrest⟩

theorem Delimited.list (h : Delimited enc) : Delimited fun xs : List α => list (xs.map enc) := by
  simp only [list_eq_record]
  refine .ofRecord fun xs ys hlen heq => h.flatten_inj ?_ heq
  exact Nat.lt_trans (length_flatten_lt_record _) hlen

theorem length_le_bytes (x : Bytes) : x.length ≤ (bytes x).length := by
  rcases bytes_form x with ⟨c, rfl, -, hb⟩ | ⟨-, hb, -⟩ | ⟨-, hb⟩
  · exact Nat.le_of_eq (congrArg List.length hb.symm)
  · rw [hb]
    exact Nat.le_succ _
  · rw [hb, List.length_cons, List.length_append]
    omega

theorem delimited_bytes : Delimited bytes := by
  refine ⟨fun x hx => ?_, fun hx hy heq => ?_⟩
  · rcases bytes_form x with ⟨c, -, -, hb⟩ | ⟨-, hb, -⟩ | ⟨-, hb⟩ <;> simp [hb] at hx
  · exact bytes_append_inj (Nat.lt_of_le_of_lt (length_le_bytes _) hx)
      (Nat.lt_of_le_of_lt (length_le_bytes _) hy) heq

theorem bool_append_inj {a b : Bool} {s t : Bytes} (h : bool a ++ s = bool b ++ t) :
    a = b ∧ s = t := by
  cases a <;> cases b <;> simp_all [bool]

end ChainSync.Rlp
