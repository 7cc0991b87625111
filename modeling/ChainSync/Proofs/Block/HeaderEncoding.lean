import ChainSync.Block.Header
import ChainSync.Proofs.Rlp.Strings
set_option autoImplicit false

namespace ChainSync

theorem Bytes.ofNat_toNat_inj (width : Nat) {a b : BitVec (8 * width)}
    (h : ofNat width a.toNat = ofNat width b.toNat) : a = b := by
  have hpow : 2 ^ (8 * width) = 256 ^ width := Nat.pow_mul 2 8 width
  exact BitVec.eq_of_toNat_eq (ofNat_inj (hpow ▸ a.isLt) (hpow ▸ b.isLt) h)

theorem Address.bytes_inj {a b : Address} (h : Address.bytes a = Address.bytes b) : a = b :=
  Bytes.ofNat_toNat_inj 20 h

theorem Bloom.bytes_inj {a b : Bloom} (h : Bloom.bytes a = Bloom.bytes b) : a = b :=
  Bytes.ofNat_toNat_inj 256 h

theorem Rlp.hash_append_inj {a b : Hash} {s t : Bytes}
    (h : Rlp.bytes a.bytes ++ s = Rlp.bytes b.bytes ++ t) : a = b ∧ s = t := by
  obtain ⟨hb, hrest⟩ := bytes_append_inj (by simp) (by simp) h
  exact ⟨Hash.bytes_inj hb, hrest⟩

/-- Every field of a header can be read off its encoding. Only the extra data has no bound on its
length; what follows it has a fixed one. -/
theorem Header.encode_injective : Function.Injective Header.encode := by
  intro a b h
  have h := Rlp.flatten_eq_of_record_eq h
  simp only [List.flatten_cons, List.flatten_nil, List.append_nil] at h
  obtain ⟨parentHash, h⟩ := Rlp.hash_append_inj h
  obtain ⟨ommersHash, h⟩ := Rlp.hash_append_inj h
  obtain ⟨coinbase, h⟩ := Rlp.bytes_append_inj (by simp [Address.bytes]) (by simp [Address.bytes]) h
  obtain ⟨stateRoot, h⟩ := Rlp.hash_append_inj h
  obtain ⟨transactionsRoot, h⟩ := Rlp.hash_append_inj h
  obtain ⟨receiptsRoot, h⟩ := Rlp.hash_append_inj h
  obtain ⟨logsBloom, h⟩ := Rlp.bytes_append_inj (by simp [Bloom.bytes]) (by simp [Bloom.bytes]) h
  obtain ⟨difficulty, h⟩ := Rlp.u256_append_inj h
  obtain ⟨number, h⟩ := Rlp.u64_append_inj h
  obtain ⟨gasLimit, h⟩ := Rlp.u64_append_inj h
  obtain ⟨gasUsed, h⟩ := Rlp.u64_append_inj h
  obtain ⟨timestamp, h⟩ := Rlp.u64_append_inj h
  have hash : ∀ x : Hash, (Rlp.bytes x.bytes).length = 33 := by
    intro x
    rcases Rlp.bytes_form x.bytes with ⟨c, hc, -⟩ | ⟨-, hx, -⟩ | ⟨hx, -⟩
    · simpa using congrArg List.length hc
    · simp [hx]
    · simp at hx
  have word : ∀ n : UInt64, (Rlp.bytes (Bytes.ofNat 8 n.toNat)).length = 9 := by
    intro n
    rcases Rlp.bytes_form (Bytes.ofNat 8 n.toNat) with ⟨c, hc, -⟩ | ⟨-, hx, -⟩ | ⟨hx, -⟩
    · simpa using congrArg List.length hc
    · simp [hx]
    · simp at hx
  obtain ⟨extraData, h⟩ := List.append_inj' h (by simp [hash, word])
  obtain ⟨prevRandao, h⟩ := Rlp.hash_append_inj h
  have nonce := UInt64.toNat_inj.mp
    (Bytes.ofNat_inj a.nonce.toNat_lt b.nonce.toNat_lt (Rlp.bytes_injective h))
  cases a
  cases b
  simp only at *
  subst parentHash ommersHash stateRoot transactionsRoot receiptsRoot difficulty number gasLimit
    gasUsed timestamp prevRandao nonce
  rw [Address.bytes_inj coinbase, Bloom.bytes_inj logsBloom, Rlp.bytes_injective extraData]

end ChainSync
