import Mathlib.Data.Set.Function
import Mathlib.Order.Monotone.Basic
import ChainSync.Ancestor
import ChainSync.Proofs.Block.HeaderEncoding
set_option autoImplicit false

/-!
The blocks that two chains share. As long as no two headers collide these are the first ones, and
looking a header up by its hash tells whether it is one of them.
-/

namespace ChainSync

open Fetch

/-- A chain from genesis on. -/
structure Rooted (chain : List Header) : Prop where
  heights : ∀ (n : Nat) (h : Header), chain[n]? = some h → h.height = n
  linked : chain.IsChain fun parent h : Header => h.parentHash = parent.hash

/-- Both chains have the same block at this height. -/
def Shares (mine theirs : List Header) (n : Nat) : Prop :=
  ∃ a b, mine[n]? = some a ∧ theirs[n]? = some b ∧ a.hash = b.hash

/-- Our chain up to the local head, and the peer's up to the head that it announced. -/
structure Chains (mine theirs : List Header) (localHead : Header) (peer : SyncPeer) : Prop where
  ours : Rooted mine
  others : Rooted theirs
  head : mine.getLast? = some localHead
  announced : theirs.length = peer.info.head.toNat + 1
  collisionFree : Set.InjOn keccak (Header.encode '' {h | h ∈ mine ∨ h ∈ theirs})

/-- The local chain knows its own headers and no others. -/
def ChainView.Knows (view : ChainView) (mine : List Header) : Prop :=
  ∀ hash, view.headerByHash hash = .ok (mine.find? (·.hash == hash))

/-- The answer to a request for one header by number is the header of that number. -/
def AnsweredFrom (theirs : List Header) (request : Request) (ending : Ending) : Prop :=
  ∀ n, request = .headers (.single (.number n)) → ending = .answered (.headers theirs[n]?.toList)

namespace Chains

variable {mine theirs : List Header} {localHead : Header} {peer : SyncPeer}
  (chains : Chains mine theirs localHead peer)
include chains

theorem eq_of_hash_eq {a b : Header} (ha : a ∈ mine ∨ a ∈ theirs) (hb : b ∈ mine ∨ b ∈ theirs)
    (same : a.hash = b.hash) : a = b :=
  Header.encode_injective (chains.collisionFree ⟨a, ha, rfl⟩ ⟨b, hb, rfl⟩ same)

/-- The parents of a block that is shared are shared. -/
theorem closed : Antitone (Shares mine theirs) := by
  refine antitone_nat_of_succ_le fun n => ?_
  rintro ⟨a, b, ha, hb, same⟩
  obtain ⟨ltA, rfl⟩ := List.getElem?_eq_some_iff.mp ha
  obtain ⟨ltB, rfl⟩ := List.getElem?_eq_some_iff.mp hb
  have equal := chains.eq_of_hash_eq (.inl (List.getElem_mem ltA)) (.inr (List.getElem_mem ltB)) same
  refine ⟨mine[n], theirs[n], List.getElem?_eq_getElem _, List.getElem?_eq_getElem _, ?_⟩
  rw [← List.isChain_iff_getElem.mp chains.ours.linked n ltA, equal]
  exact List.isChain_iff_getElem.mp chains.others.linked n ltB

theorem exists_theirs {n : Nat} (hn : n ≤ AncestorSearch.height peer localHead) :
    ∃ b, theirs[n]? = some b := by
  have announced := chains.announced
  have below : n < theirs.length := by
    unfold AncestorSearch.height at hn
    omega
  exact ⟨_, List.getElem?_eq_getElem below⟩

/-- Looking up what the peer sent tells whether the block is shared. -/
theorem lookUp_eq {view : ChainView} (knows : view.Knows mine) {n : Nat} {b : Header}
    (hb : theirs[n]? = some b) :
    ∃ copy, AncestorSearch.lookUp peer.id view n theirs[n]?.toList = .ok copy ∧
      (∀ a, copy = some a → mine[n]? = some a ∧ Shares mine theirs n) ∧
      (copy = none → ¬ Shares mine theirs n) := by
  have height := chains.others.heights n b hb
  have sent := List.mem_of_getElem? hb
  refine ⟨(mine.find? (·.hash == b.hash)).filter (·.height == n), ?_, ?_, ?_⟩
  · simp [AncestorSearch.lookUp, hb, height, knows b.hash]
  · intro a found
    obtain ⟨found, -⟩ := Option.filter_eq_some_iff.mp found
    have ours := List.mem_of_find?_eq_some found
    have same : a.hash = b.hash := by simpa using List.find?_some found
    obtain rfl := chains.eq_of_hash_eq (.inl ours) (.inr sent) same
    obtain ⟨i, hi⟩ := List.mem_iff_getElem?.mp ours
    obtain rfl : i = n := (chains.ours.heights i a hi).symm.trans height
    exact ⟨hi, a, a, hi, hb, rfl⟩
  · rintro missing ⟨a, b', ha, hb', same⟩
    obtain rfl := Option.some.inj (hb.symm.trans hb')
    obtain rfl := chains.eq_of_hash_eq (.inl (List.mem_of_getElem? ha)) (.inr sent) same
    cases found : mine.find? (·.hash == a.hash) with
    | none => simpa using List.find?_eq_none.mp found a (List.mem_of_getElem? ha)
    | some c =>
      have same' : c.hash = a.hash := by simpa using List.find?_some found
      obtain rfl := chains.eq_of_hash_eq (.inl (List.mem_of_find?_eq_some found)) (.inr sent) same'
      simp [found, height] at missing

end Chains
end ChainSync
