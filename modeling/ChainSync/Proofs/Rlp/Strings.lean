import Mathlib.Data.List.Basic
import Mathlib.Order.Basic
import Mathlib.Tactic.SplitIfs
import Mathlib.Algebra.Group.Nat.Defs
import ChainSync.Rlp.Encoding
set_option autoImplicit false

/-!
Encoded byte strings can be told apart, also in front of other bytes, and integers are written
as byte strings that keep their value.
-/

namespace ChainSync

namespace Bytes

@[simp] theorem toNat_nil : toNat [] = 0 := rfl

theorem minimal_zero : minimal 0 = [] := by rw [minimal]; simp

theorem minimal_of_ne {n : Nat} (h : n ≠ 0) :
    minimal n = minimal (n / 256) ++ [UInt8.ofNat (n % 256)] := by
  rw [minimal, dif_neg h]

theorem toNat_minimal (n : Nat) : toNat (minimal n) = n := by
  induction n using Nat.strongRecOn with
  | ind n ih =>
    by_cases hn : n = 0
    · rw [hn, minimal_zero, toNat_nil]
    · rw [minimal_of_ne hn, toNat_concat, ih (n / 256) (by omega),
        UInt8.toNat_ofNat_of_lt' (by simp [UInt8.size]; omega)]
      omega

theorem length_minimal_mono {m n : Nat} (h : m ≤ n) :
    (minimal m).length ≤ (minimal n).length := by
  induction n using Nat.strongRecOn generalizing m with
  | ind n ih =>
    by_cases hm : m = 0
    · rw [hm, minimal_zero]; exact Nat.zero_le _
    · have hn : n ≠ 0 := by omega
      rw [minimal_of_ne hm, minimal_of_ne hn, List.length_append, List.length_append]
      exact Nat.add_le_add_right (ih (n / 256) (by omega) (Nat.div_le_div_right h)) _

theorem length_minimal_pos {n : Nat} (h : n ≠ 0) : 0 < (minimal n).length := by
  rw [minimal_of_ne h]; simp

theorem length_minimal_le {w n : Nat} (h : n < 256 ^ w) : (minimal n).length ≤ w := by
  induction w generalizing n with
  | zero => rw [show n = 0 by simpa using h, minimal_zero]; exact Nat.le_refl 0
  | succ w ih =>
    by_cases hn : n = 0
    · rw [hn, minimal_zero]; exact Nat.zero_le _
    · have hdiv : n / 256 < 256 ^ w := Nat.div_lt_of_lt_mul (by rwa [Nat.pow_succ'] at h)
      rw [minimal_of_ne hn, List.length_append]
      exact Nat.add_le_add_right (ih hdiv) 1

theorem toNat_cons_zero (b : Bytes) : toNat (0 :: b) = toNat b := by simp [toNat]

theorem toNat_trim (b : Bytes) : toNat b.trim = toNat b := by
  induction b with
  | nil => rfl
  | cons x b ih =>
    by_cases hx : x = 0
    · subst hx
      rw [toNat_cons_zero, ← ih]; rfl
    · simp [trim, hx]

/-- The first bytes of a number that needs fewer are zeros. -/
theorem drop_ofNat {w k n : Nat} (h : n < 256 ^ w) : (ofNat (w + k) n).drop k = ofNat w n := by
  induction w generalizing n with
  | zero => rw [List.drop_eq_nil_of_le (by simp)]; rfl
  | succ w ih =>
    have hdiv : n / 256 < 256 ^ w := Nat.div_lt_of_lt_mul (by rwa [Nat.pow_succ'] at h)
    rw [Nat.succ_add, ofNat_succ, ofNat_succ, List.drop_append_of_le_length (by simp), ih hdiv]

theorem ofNat_inj {w m n : Nat} (hm : m < 256 ^ w) (hn : n < 256 ^ w)
    (h : ofNat w m = ofNat w n) : m = n := by
  have hv := congrArg toNat h
  rwa [toNat_ofNat, toNat_ofNat, Nat.pow_eq, Nat.mod_eq_of_lt hm, Nat.mod_eq_of_lt hn] at hv

end Bytes

namespace Rlp

/-- How a byte string starts tells its length, if that fits eight bytes. -/
theorem bytes_form (x : Bytes) :
    (∃ c, x = [c] ∧ c < 0x80 ∧ bytes x = [c]) ∨
      (x.length < 56 ∧ bytes x = UInt8.ofNat (0x80 + x.length) :: x ∧ ∀ c, x = [c] → ¬c < 0x80) ∨
      (56 ≤ x.length ∧ bytes x =
        UInt8.ofNat (0xb7 + (Bytes.minimal x.length).length) ::
          (Bytes.minimal x.length ++ x)) := by
  by_cases hs : ∃ c, x = [c] ∧ c < 0x80
  · obtain ⟨c, rfl, hc⟩ := hs
    exact .inl ⟨c, rfl, hc, by simp [bytes, hc]⟩
  · have hb : bytes x = bytesHead x.length ++ x := by
      unfold bytes
      split
      · rename_i c
        rw [if_neg fun hc => hs ⟨c, rfl, hc⟩]; rfl
      · rfl
    right
    by_cases hl : x.length < 56
    · exact .inl ⟨hl, by rw [hb, bytesHead, if_pos hl]; rfl, fun c hx hc => hs ⟨c, hx, hc⟩⟩
    · exact .inr ⟨by omega, by rw [hb, bytesHead, if_neg hl]; rfl⟩

theorem toNat_ofNat_add {a n : Nat} (h : a + n < 256) : (UInt8.ofNat (a + n)).toNat = a + n :=
  UInt8.toNat_ofNat_of_lt' (by simpa [UInt8.size] using h)

/-- The first byte tells the three forms apart, as long as the length fits eight bytes. -/
theorem bytes_head {x : Bytes} (hx : x.length < 2 ^ 64) :
    ∃ head tail, bytes x = head :: tail ∧
      ((head.toNat < 128 ∧ x = [head] ∧ tail = []) ∨
        (x.length < 56 ∧ head.toNat = 128 + x.length ∧ tail = x) ∨
        (183 < head.toNat ∧ head.toNat = 183 + (Bytes.minimal x.length).length ∧
          tail = Bytes.minimal x.length ++ x)) := by
  rcases bytes_form x with ⟨c, rfl, hc, hb⟩ | ⟨hl, hb, -⟩ | ⟨hl, hb⟩
  · exact ⟨c, [], hb, .inl ⟨by simpa using UInt8.lt_iff_toNat_lt.mp hc, rfl, rfl⟩⟩
  · exact ⟨_, x, hb, .inr (.inl ⟨hl, toNat_ofNat_add (by omega), rfl⟩)⟩
  · have hmax : (Bytes.minimal x.length).length ≤ 8 :=
      Bytes.length_minimal_le (by simpa using hx)
    have hpos : 0 < (Bytes.minimal x.length).length := Bytes.length_minimal_pos (by omega)
    have hhead := toNat_ofNat_add (a := 0xb7) (n := (Bytes.minimal x.length).length) (by omega)
    exact ⟨_, _, hb, .inr (.inr ⟨by omega, hhead, rfl⟩)⟩

theorem bytes_append_inj {x y s t : Bytes} (hx : x.length < 2 ^ 64) (hy : y.length < 2 ^ 64)
    (h : bytes x ++ s = bytes y ++ t) : x = y ∧ s = t := by
  obtain ⟨a, x', ex, fx⟩ := bytes_head hx
  obtain ⟨b, y', ey, fy⟩ := bytes_head hy
  rw [ex, ey, List.cons_append, List.cons_append] at h
  obtain ⟨rfl, tail⟩ := List.cons.inj h
  rcases fx with ⟨hx, rfl, rfl⟩ | ⟨lx, hx, rfl⟩ | ⟨lx, hx, rfl⟩ <;>
    rcases fy with ⟨hy, rfl, rfl⟩ | ⟨ly, hy, rfl⟩ | ⟨ly, hy, rfl⟩ <;> try omega
  · exact ⟨rfl, tail⟩
  · exact List.append_inj tail (by omega)
  · rw [List.append_assoc, List.append_assoc] at tail
    obtain ⟨hlen, rest⟩ := List.append_inj tail (by omega)
    have hxy := congrArg Bytes.toNat hlen
    rw [Bytes.toNat_minimal, Bytes.toNat_minimal] at hxy
    exact List.append_inj rest hxy

/-- Alone, byte strings of any length are told apart: the longer one is written longer. -/
theorem bytes_injective : Function.Injective bytes := by
  intro x y h
  rcases bytes_form x with ⟨c, rfl, hc, ex⟩ | ⟨lx, ex, sx⟩ | ⟨lx, ex⟩ <;>
    rcases bytes_form y with ⟨d, rfl, hd, ey⟩ | ⟨ly, ey, sy⟩ | ⟨ly, ey⟩ <;>
    rw [ex, ey] at h <;>
    have hlen := congrArg List.length h <;>
    simp only [List.length_cons, List.length_append, List.length_nil] at hlen <;> try omega
  · obtain rfl := List.length_eq_zero_iff.mp (show y.length = 0 by omega)
    obtain ⟨rfl, -⟩ := List.cons.inj h
    exact absurd hc (by decide)
  · obtain rfl := List.length_eq_zero_iff.mp (show x.length = 0 by omega)
    obtain ⟨rfl, -⟩ := List.cons.inj h
    exact absurd hd (by decide)
  · exact (List.cons.inj h).2
  · have heq : x.length = y.length := by
      rcases Nat.le_total x.length y.length with hle | hle
      · have := Bytes.length_minimal_mono hle
        omega
      · have := Bytes.length_minimal_mono hle
        omega
    exact (List.append_inj (List.cons.inj h).2 (by rw [heq])).2

/-- A word is its bytes without leading zeros, written as a string. -/
theorem word_eq_bytes {w : Nat} (hw : w < 56) (n : Nat) :
    word w n = bytes (Bytes.ofNat w n).trim := by
  have hl : (Bytes.ofNat w n).trim.length < 56 := by
    have := (List.dropWhile_sublist (· == (0 : UInt8)) (l := Bytes.ofNat w n)).length_le
    rw [Bytes.length_ofNat] at this
    exact Nat.lt_of_le_of_lt this hw
  unfold word
  generalize (Bytes.ofNat w n).trim = b at hl
  match b with
  | [] => rfl
  | [x] =>
    have hx : x ≤ 0x7f ↔ x < 0x80 := by
      rw [UInt8.le_iff_toNat_le, UInt8.lt_iff_toNat_lt]
      simp
      omega
    simp only [bytes, hx]
    split <;> rfl
  | x :: y :: rest =>
    simp only [bytes, bytesHead, if_pos hl, List.singleton_append]

theorem word_append_inj {w m n : Nat} {s t : Bytes} (hw : w < 56) (hm : m < 256 ^ w)
    (hn : n < 256 ^ w) (h : word w m ++ s = word w n ++ t) : m = n ∧ s = t := by
  have hlen : ∀ k, (Bytes.ofNat w k).trim.length < 2 ^ 64 := by
    intro k
    have := (List.dropWhile_sublist (· == (0 : UInt8)) (l := Bytes.ofNat w k)).length_le
    rw [Bytes.length_ofNat] at this
    exact Nat.lt_of_le_of_lt this (by omega)
  rw [word_eq_bytes hw, word_eq_bytes hw] at h
  obtain ⟨htrim, hrest⟩ := bytes_append_inj (hlen m) (hlen n) h
  have hv := congrArg Bytes.toNat htrim
  rw [Bytes.toNat_trim, Bytes.toNat_trim, Bytes.toNat_ofNat, Bytes.toNat_ofNat, Nat.pow_eq,
    Nat.mod_eq_of_lt hm, Nat.mod_eq_of_lt hn] at hv
  exact ⟨hv, hrest⟩

theorem u64_append_inj {m n : UInt64} {s t : Bytes} (h : u64 m ++ s = u64 n ++ t) :
    m = n ∧ s = t := by
  obtain ⟨hv, hrest⟩ := word_append_inj (by omega) m.toNat_lt n.toNat_lt h
  exact ⟨UInt64.toNat_inj.mp hv, hrest⟩

/-- The bytes that are dropped are the leading zeros, so the value stays. -/
theorem toNat_drop_leadingZeros (x : U256) :
    Bytes.toNat ((Bytes.ofNat 32 x.toNat).drop (x.leadingZeros / 8)) = x.toNat := by
  obtain ⟨w, hw⟩ : ∃ w, w + x.leadingZeros / 8 = 32 := by
    refine ⟨32 - x.leadingZeros / 8, Nat.sub_add_cancel ?_⟩
    unfold U256.leadingZeros
    split <;> omega
  have hlt : x.toNat < 256 ^ w := by
    by_cases hz : x.toNat = 0
    · rw [hz]; exact Nat.pow_pos (by decide)
    · have hlog : x.toNat < 2 ^ (x.toNat.log2 + 1) := Nat.lt_log2_self
      have hmax : x.toNat.log2 < 256 := (Nat.log2_lt hz).mpr x.toNat_lt
      rw [U256.leadingZeros, if_neg hz] at hw
      rw [show 256 = 2 ^ 8 from rfl, ← Nat.pow_mul]
      exact Nat.lt_of_lt_of_le hlog (Nat.pow_le_pow_right (by decide) (by omega))
  rw [← hw, Bytes.drop_ofNat hlt, Bytes.toNat_ofNat, Nat.pow_eq, Nat.mod_eq_of_lt hlt]

theorem u256_append_inj {x y : U256} {s t : Bytes} (h : u256 x ++ s = u256 y ++ t) :
    x = y ∧ s = t := by
  have hlen : ∀ z : U256, ((Bytes.ofNat 32 z.toNat).drop (z.leadingZeros / 8)).length < 2 ^ 64 := by
    intro z
    rw [List.length_drop, Bytes.length_ofNat]
    omega
  obtain ⟨hb, hrest⟩ := bytes_append_inj (hlen x) (hlen y) h
  have hv := congrArg Bytes.toNat hb
  rw [toNat_drop_leadingZeros, toNat_drop_leadingZeros] at hv
  exact ⟨U256.toNat_inj hv, hrest⟩

theorem length_listHead_mono {m n : Nat} (h : m ≤ n) :
    (listHead m).length ≤ (listHead n).length := by
  have hmin := Bytes.length_minimal_mono h
  unfold listHead
  split_ifs <;> simp <;> omega

theorem payload_foldl (fields : List Bytes) (w : Writer) :
    (fields.foldl Writer.field w).payload = w.payload ++ fields.flatten := by
  induction fields generalizing w with
  | nil => simp
  | cons b fields ih => simp [ih]

theorem record_eq (fields : List Bytes) :
    record fields = listHead fields.flatten.length ++ fields.flatten := by
  rw [record, Writer.finish, payload_foldl]; rfl

/-- A record's length fixes the length of its payload, so no length has to be read. -/
theorem flatten_eq_of_record_eq {xs ys : List Bytes} (h : record xs = record ys) :
    xs.flatten = ys.flatten := by
  rw [record_eq, record_eq] at h
  have hlen := congrArg List.length h
  rw [List.length_append, List.length_append] at hlen
  have heq : xs.flatten.length = ys.flatten.length := by
    rcases Nat.le_total xs.flatten.length ys.flatten.length with hle | hle
    · have := length_listHead_mono hle
      omega
    · have := length_listHead_mono hle
      omega
  exact (List.append_inj h (by rw [heq])).2

end Rlp
end ChainSync
