import ChainSync.Proofs.Block.Commitments
set_option autoImplicit false

/-!
Commitments bind: behind a digest there is one header, and behind a header one body and one list of
receipts.
-/

namespace ChainSync

theorem Header.eq_of_hash {known : Set Bytes} (collisionFree : Set.InjOn keccak known) {a b : Header}
    (ha : a.encode ∈ known) (hb : b.encode ∈ known) (same : a.hash = b.hash) : a = b :=
  encode_injective (collisionFree ha hb same)

theorem Body.encodings_empty : Body.empty.encodings = [Rlp.list [], Rlp.list []] := rfl

/-- What a digest stands for is determined, down to every field, among data whose encodings do not
collide. A header that commits to nothing accepts nothing else. -/
theorem commitments_bind {known : Set Bytes} (collisionFree : Set.InjOn keccak known)
    (short : ∀ e ∈ known, e.length < 2 ^ 64) :
    (∀ a b : Header, a.encode ∈ known → b.encode ∈ known → a.hash = b.hash → a = b) ∧
      (∀ (h : Header) (a b : Body), (∀ e ∈ a.encodings, e ∈ known) →
        (∀ e ∈ b.encodings, e ∈ known) → h.checkBody a = .ok () → h.checkBody b = .ok () → a = b) ∧
      (∀ (h : Header) (a b : List Receipt), Rlp.list (a.map Receipt.encode) ∈ known →
        Rlp.list (b.map Receipt.encode) ∈ known → h.checkReceipts a = .ok () →
          h.checkReceipts b = .ok () → a = b) ∧
      keccak [0xc0] = emptyListHash ∧
      (∀ (h : Header) (b : Body), h.hasEmptyBody → Rlp.list [] ∈ known →
        (∀ e ∈ b.encodings, e ∈ known) → (h.checkBody b = .ok () ↔ b = Body.empty)) ∧
      (∀ (h : Header) (rs : List Receipt), h.hasEmptyReceipts → Rlp.list [] ∈ known →
        Rlp.list (rs.map Receipt.encode) ∈ known → (h.checkReceipts rs = .ok () ↔ rs = [])) := by
  have bodies (h : Header) (a b : Body) (ha : ∀ e ∈ a.encodings, e ∈ known)
      (hb : ∀ e ∈ b.encodings, e ∈ known) (va : h.checkBody a = .ok ())
      (vb : h.checkBody b = .ok ()) : a = b :=
    Body.eq_of_check collisionFree (fun e he => ⟨ha e he, short e (ha e he)⟩) hb va vb
  have receipts (h : Header) (a b : List Receipt) (ha : Rlp.list (a.map Receipt.encode) ∈ known)
      (hb : Rlp.list (b.map Receipt.encode) ∈ known) (va : h.checkReceipts a = .ok ())
      (vb : h.checkReceipts b = .ok ()) : a = b :=
    receipts_eq_of_check collisionFree ha (short _ ha) hb va vb
  refine ⟨fun _ _ ha hb same => Header.eq_of_hash collisionFree ha hb same, bodies, receipts,
    keccak_empty_list, fun h b he hempty hb => ?_, fun h rs he hempty hrs => ?_⟩
  · have empty : h.checkBody Body.empty = .ok () := Header.checkBody_empty he
    have within : ∀ e ∈ Body.empty.encodings, e ∈ known := by
      simpa [Body.encodings_empty] using hempty
    exact ⟨fun hok => bodies h b _ hb within hok empty, fun hb => hb ▸ empty⟩
  · have empty : h.checkReceipts [] = .ok () := Header.checkReceipts_empty he
    exact ⟨fun hok => receipts h rs [] hrs hempty hok empty, fun hrs => hrs ▸ empty⟩

/-- The header of a block with one transaction refuses a body with another one, and the header of
an empty block refuses both. -/
theorem commitments_bind_transactions :
    let h : Header := { transactionsRoot := transactionsRoot [[1]] }
    h.checkBody ⟨[[1]], []⟩ = .ok () ∧ h.checkBody ⟨[[2]], []⟩ ≠ .ok () ∧
      ({} : Header).checkBody ⟨[[1]], []⟩ ≠ .ok () := by
  intro h
  let known : List Bytes := [Rlp.list [], Rlp.list [[1]], Rlp.list [[2]]]
  have distinct : ∀ a ∈ known, ∀ b ∈ known, keccak a = keccak b → a = b := by decide +kernel
  have collisionFree : Set.InjOn keccak {e | e ∈ known} := fun a ha b hb => distinct a ha b hb
  have short : ∀ e ∈ known, e.length < 2 ^ 64 := by decide
  obtain ⟨-, bodies, -, -, empty, -⟩ := commitments_bind collisionFree short
  have one : h.checkBody ⟨[[1]], []⟩ = .ok () := by decide +kernel
  have within (t : UInt8) (ht : t = 1 ∨ t = 2) :
      ∀ e ∈ Body.encodings ⟨[[t]], []⟩, e ∈ known := by
    rcases ht with rfl | rfl <;> decide
  refine ⟨one, fun two => ?_, fun hok => ?_⟩
  · exact absurd (bodies h _ _ (within 1 (.inl rfl)) (within 2 (.inr rfl)) one two) (by decide)
  · exact absurd ((empty {} _ (by decide) (by decide) (within 1 (.inl rfl))).mp hok) (by decide)

end ChainSync
