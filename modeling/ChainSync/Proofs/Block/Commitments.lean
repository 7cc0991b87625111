import Mathlib.Data.Set.Function
import ChainSync.Block.Body
import ChainSync.Proofs.Block.HeaderEncoding
import ChainSync.Proofs.Rlp.Lists
set_option autoImplicit false

/-!
What a header commits to is bound by its roots, as long as no two encodings share a digest.
-/

namespace ChainSync

theorem Header.delimited : Rlp.Delimited Header.encode :=
  .ofRecord fun _ _ _ h => Header.encode_injective (by simp only [encode, Rlp.record_eq, h])

theorem delimited_topics : Rlp.Delimited fun t : Hash => Rlp.bytes t.bytes :=
  ⟨fun _ => Rlp.delimited_bytes.nonempty _, fun _ _ h => Rlp.hash_append_inj h⟩

theorem Log.delimited : Rlp.Delimited Log.encode := by
  refine .ofRecord fun a b hlen h => ?_
  have hlen := Nat.lt_trans (Rlp.length_flatten_lt_record _) hlen
  have hlen' := hlen
  rw [h] at hlen'
  simp only [List.flatten_cons, List.flatten_nil, List.append_nil, List.length_append] at h hlen hlen'
  obtain ⟨address, h⟩ := Rlp.delimited_bytes.append_inj (by omega) (by omega) h
  obtain ⟨topics, h⟩ := delimited_topics.list.append_inj (by omega) (by omega) h
  have data := Rlp.bytes_injective h
  cases a
  cases b
  simp only at address topics data
  rw [Address.bytes_inj address, topics, data]

theorem Receipt.delimited : Rlp.Delimited Receipt.encode := by
  refine .ofRecord fun a b hlen h => ?_
  have hlen := Nat.lt_trans (Rlp.length_flatten_lt_record _) hlen
  have hlen' := hlen
  rw [h] at hlen'
  simp only [List.flatten_cons, List.flatten_nil, List.append_nil, List.length_append] at h hlen hlen'
  obtain ⟨succeeded, h⟩ := Rlp.bool_append_inj h
  obtain ⟨gas, h⟩ := Rlp.u64_append_inj h
  obtain ⟨bloom, h⟩ := Rlp.delimited_bytes.append_inj (by omega) (by omega) h
  have logs := Log.delimited.list.inj (by omega) h
  cases a
  cases b
  simp only at succeeded gas bloom logs
  rw [succeeded, gas, Bloom.bytes_inj bloom, logs]

namespace Body

/-- What the two roots of a body are the digests of. -/
def encodings (b : Body) : List Bytes :=
  [Rlp.list (b.transactions.map Rlp.bytes), Rlp.list (b.ommers.map Header.encode)]

end Body

theorem Header.checkBody_eq_ok {h : Header} {b : Body} :
    h.checkBody b = .ok () ↔ b.transactionsRoot = h.transactionsRoot ∧
      b.ommersHash = h.ommersHash := by
  unfold checkBody
  split
  · simp_all
  · split <;> simp_all

theorem Header.checkReceipts_eq_ok {h : Header} {receipts : List Receipt} :
    h.checkReceipts receipts = .ok () ↔ ChainSync.receiptsRoot receipts = h.receiptsRoot := by
  unfold checkReceipts
  split <;> simp_all

/-- The digest of the empty list is the one that headers without content commit to. -/
theorem keccak_empty_list : keccak (Rlp.list []) = emptyListHash := by decide +kernel

theorem Header.checkBody_empty {h : Header} (he : h.hasEmptyBody) :
    h.checkBody Body.empty = .ok () := by
  rw [hasEmptyBody, Bool.and_eq_true, beq_iff_eq, beq_iff_eq] at he
  exact checkBody_eq_ok.mpr ⟨keccak_empty_list.trans he.1.symm, keccak_empty_list.trans he.2.symm⟩

theorem Header.checkReceipts_empty {h : Header} (he : h.hasEmptyReceipts) :
    h.checkReceipts [] = .ok () := by
  rw [hasEmptyReceipts, beq_iff_eq] at he
  exact checkReceipts_eq_ok.mpr (keccak_empty_list.trans he.symm)

/-- A header has one body. -/
theorem Body.eq_of_check {known : Set Bytes} (collisionFree : Set.InjOn keccak known) {h : Header}
    {a b : Body} (ha : ∀ e ∈ a.encodings, e ∈ known ∧ e.length < 2 ^ 64)
    (hb : ∀ e ∈ b.encodings, e ∈ known) (va : h.checkBody a = .ok ()) (vb : h.checkBody b = .ok ()) :
    a = b := by
  simp only [encodings, List.mem_cons, List.not_mem_nil, or_false, forall_eq_or_imp,
    forall_eq] at ha hb
  obtain ⟨ta, oa⟩ := Header.checkBody_eq_ok.mp va
  obtain ⟨tb, ob⟩ := Header.checkBody_eq_ok.mp vb
  have transactions := Rlp.delimited_bytes.list.inj ha.1.2
    (collisionFree ha.1.1 hb.1 (ta.trans tb.symm))
  have ommers := Header.delimited.list.inj ha.2.2 (collisionFree ha.2.1 hb.2 (oa.trans ob.symm))
  cases a
  cases b
  simp only at transactions ommers
  rw [transactions, ommers]

/-- A header has one list of receipts. -/
theorem receipts_eq_of_check {known : Set Bytes} (collisionFree : Set.InjOn keccak known)
    {h : Header} {a b : List Receipt} (ha : Rlp.list (a.map Receipt.encode) ∈ known)
    (small : (Rlp.list (a.map Receipt.encode)).length < 2 ^ 64)
    (hb : Rlp.list (b.map Receipt.encode) ∈ known) (va : h.checkReceipts a = .ok ())
    (vb : h.checkReceipts b = .ok ()) : a = b := by
  have root := (Header.checkReceipts_eq_ok.mp va).trans (Header.checkReceipts_eq_ok.mp vb).symm
  exact Receipt.delimited.list.inj small (collisionFree ha hb root)

end ChainSync
