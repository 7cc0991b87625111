import ChainSync.Proofs.Rlp.Items
set_option autoImplicit false

/-!
Integers of every width. A fixed width writes a head of its own in front of what follows the zero
bytes, the widest type cuts its bytes by a count of bits; both write the same digits.
-/

namespace ChainSync

namespace Bytes

theorem log2_of_div_ne {n : Nat} (h : n / 256 ≠ 0) : n.log2 = (n / 256).log2 + 8 := by
  have low : 2 ^ (n / 256).log2 ≤ n / 256 := Nat.log2_self_le h
  have high : n / 256 < 2 ^ ((n / 256).log2 + 1) := Nat.lt_log2_self
  refine (Nat.log2_eq_iff (by omega)).mpr ⟨?_, ?_⟩
  · rw [Nat.pow_add]
    omega
  · rw [Nat.add_right_comm, Nat.pow_add]
    omega

/-- A number takes one byte for every eight bits begun. -/
theorem length_minimal {n : Nat} (h : n ≠ 0) : (minimal n).length = n.log2 / 8 + 1 := by
  induction n using Nat.strongRecOn with
  | ind n ih =>
    rw [minimal_of_ne h, List.length_append, List.length_singleton]
    by_cases hd : n / 256 = 0
    · have hlog : n.log2 < 8 := (Nat.log2_lt h).mpr (by omega)
      rw [hd, minimal_zero, List.length_nil]
      omega
    · rw [ih (n / 256) (by omega) hd, log2_of_div_ne hd]
      omega

theorem ofNat_length_minimal (n : Nat) : ofNat (minimal n).length n = minimal n := by
  induction n using Nat.strongRecOn with
  | ind n ih =>
    by_cases hn : n = 0
    · rw [hn, minimal_zero]
      rfl
    · rw [minimal_of_ne hn, List.length_append, List.length_singleton, ofNat_succ,
        ih (n / 256) (by omega)]

theorem lt_pow_length_minimal (n : Nat) : n < 256 ^ (minimal n).length := by
  have value := toNat_ofNat (minimal n).length n
  rw [ofNat_length_minimal, toNat_minimal, Nat.pow_eq] at value
  calc n = n % 256 ^ (minimal n).length := value
    _ < 256 ^ (minimal n).length := Nat.mod_lt n (Nat.pow_pos (by decide))

/-- The digits of a number are the one byte string of its value that does not start with a zero. -/
theorem eq_minimal_iff {b : Bytes} {n : Nat} : b = minimal n ↔ b.toNat = n ∧ b.head? ≠ some 0 := by
  constructor
  · rintro rfl
    exact ⟨toNat_minimal n, trim_ofNat (lt_pow_length_minimal n) ▸ head?_trim _⟩
  · rintro ⟨rfl, hb⟩
    exact eq_minimal_toNat hb

end Bytes

namespace Rlp

theorem u8_eq_bytes (n : UInt8) : u8 n = bytes (Bytes.minimal n.toNat) := by
  rw [u8, word_eq_bytes (by omega), Bytes.trim_ofNat n.toNat_lt]

theorem u32_eq_bytes (n : UInt32) : u32 n = bytes (Bytes.minimal n.toNat) := by
  rw [u32, word_eq_bytes (by omega), Bytes.trim_ofNat n.toNat_lt]

/-- What is left after the zero bits are dropped by eights is as long as the digits. -/
theorem u256_eq_bytes (x : U256) : u256 x = bytes (Bytes.minimal x.toNat) := by
  have width : (Bytes.minimal x.toNat).length + x.leadingZeros / 8 = 32 := by
    unfold U256.leadingZeros
    split
    · rename_i hz
      rw [hz, Bytes.minimal_zero]
      rfl
    · rename_i hz
      have hlog : x.toNat.log2 < 256 := (Nat.log2_lt hz).mpr x.toNat_lt
      rw [Bytes.length_minimal hz]
      omega
  rw [u256, ← width, Bytes.drop_ofNat (Bytes.lt_pow_length_minimal _), Bytes.ofNat_length_minimal]

/-- Every type that holds a number writes it alike: as the byte string of its digits, most
significant first and without leading zeros, of which zero has none. -/
theorem integers_share_one_encoding (n : Nat) :
    ∃ digits : Bytes, (∀ b : Bytes, b = digits ↔ b.toNat = n ∧ b.head? ≠ some 0) ∧
      (n = 0 → digits = []) ∧
      (∀ x : UInt8, x.toNat = n → u8 x = bytes digits) ∧
      (∀ x : UInt32, x.toNat = n → u32 x = bytes digits) ∧
      (∀ x : UInt64, x.toNat = n → u64 x = bytes digits) ∧
      ∀ x : U256, x.toNat = n → u256 x = bytes digits := by
  refine ⟨Bytes.minimal n, fun b => Bytes.eq_minimal_iff, ?_, ?_, ?_, ?_, ?_⟩
  · rintro rfl
    exact Bytes.minimal_zero
  · rintro x rfl
    exact u8_eq_bytes x
  · rintro x rfl
    exact u32_eq_bytes x
  · rintro x rfl
    exact u64_eq_bytes x
  · rintro x rfl
    exact u256_eq_bytes x

/-- The least number that needs a head, in every type. -/
theorem integers_share_one_encoding_behind_a_head :
    let digits : Bytes := [0x80]
    digits.toNat = 128 ∧ digits.head? ≠ some 0 ∧ u8 128 = 0x81 :: digits ∧
      u32 128 = 0x81 :: digits ∧ u64 128 = 0x81 :: digits ∧ u256 (.ofNat 128) = 0x81 :: digits := by
  intro digits
  have value : digits.toNat = 128 := by decide
  have head : digits.head? ≠ some 0 := by decide
  obtain ⟨written, unique, -, one, four, eight, wide⟩ := integers_share_one_encoding 128
  obtain rfl : digits = written := (unique digits).mpr ⟨value, head⟩
  exact ⟨value, head, one 128 rfl, four 128 rfl, eight 128 rfl, wide (.ofNat 128) rfl⟩

end Rlp
end ChainSync
