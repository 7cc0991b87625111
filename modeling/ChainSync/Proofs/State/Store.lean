import Mathlib.Data.Set.Basic
import Mathlib.Data.List.Infix
import ChainSync.Simulation.Trie
set_option autoImplicit false

/-!
Databases of trie nodes, and what makes a list of nodes safe to commit to one.
-/

namespace ChainSync

/-- What is relied on of a database. It may refuse to read or to store at any time; a commit that
fails may have stored the first of its nodes, in order. -/
class LawfulNodeStore (σ : Type) [NodeStore σ] where
  nodes : σ → Set (Hash × Bytes)
  children : Hash → Bytes → Except StoreError (List Hash)
  childHashes_eq (s : σ) (h : Hash) (data : Bytes) :
    NodeStore.childHashes s h data = children h data
  hasNode_iff {s : σ} {h : Hash} {b : Bool} :
    NodeStore.hasNode s h = .ok b → (b = true ↔ ∃ data, (h, data) ∈ nodes s)
  commitNodes_nodes (s : σ) (batch : List (Hash × Bytes)) :
    ∃ stored, stored <+: batch ∧
      nodes (NodeStore.commitNodes s batch).1 = nodes s ∪ {e | e ∈ stored} ∧
      ((NodeStore.commitNodes s batch).2 = .ok () → stored = batch)

open LawfulNodeStore

section Nodes

variable {σ : Type} [NodeStore σ] [LawfulNodeStore σ]

def Stored (s : σ) (h : Hash) : Prop := ∃ data, (h, data) ∈ nodes s

variable (σ) in
/-- A node whose children, apart from empty tries, are all known. -/
def Complete (known : Hash → Prop) (e : Hash × Bytes) : Prop :=
  ∃ cs, children σ e.1 e.2 = .ok cs ∧ ∀ c ∈ cs, c ≠ emptyTrieHash → known c

/-- No stored node misses a child. -/
def Closed (s : σ) : Prop :=
  ∀ e ∈ nodes s, ∀ cs, children σ e.1 e.2 = .ok cs → ∀ c ∈ cs, c ≠ emptyTrieHash → Stored s c

/-- Every node goes by its own digest and stands behind those of its children that are not stored
yet. -/
def Ordered (s : σ) (batch : List (Hash × Bytes)) : Prop :=
  ∀ before e behind, batch = before ++ e :: behind →
    keccak e.2 = e.1 ∧ Complete σ (fun c => Stored s c ∨ c ∈ before.map Prod.fst) e

theorem Complete.mono {known more : Hash → Prop} {e : Hash × Bytes} (h : Complete σ known e)
    (sub : ∀ c, known c → more c) : Complete σ more e := by
  obtain ⟨cs, hcs, hknown⟩ := h
  exact ⟨cs, hcs, fun c hc hne => sub c (hknown c hc hne)⟩

theorem ordered_nil (s : σ) : Ordered s [] := by
  intro before e behind h
  simp at h

theorem Ordered.concat {s : σ} {batch : List (Hash × Bytes)} {e : Hash × Bytes}
    (h : Ordered s batch) (digest : keccak e.2 = e.1)
    (complete : Complete σ (fun c => Stored s c ∨ c ∈ batch.map Prod.fst) e) :
    Ordered s (batch ++ [e]) := by
  intro before e' behind heq
  rcases List.eq_nil_or_concat behind with rfl | ⟨rest, last, rfl⟩
  · obtain ⟨rfl, hlast⟩ := List.append_inj' heq rfl
    obtain rfl := List.singleton_inj.mp hlast
    exact ⟨digest, complete⟩
  · rw [List.concat_eq_append, ← List.cons_append, ← List.append_assoc] at heq
    obtain ⟨heq, -⟩ := List.append_inj' heq rfl
    exact h before e' rest heq

theorem Ordered.initial {s : σ} {batch stored : List (Hash × Bytes)} (h : Ordered s batch)
    (hp : stored <+: batch) : Ordered s stored := by
  obtain ⟨rest, rfl⟩ := hp
  intro before e behind heq
  exact h before e (behind ++ rest) (by rw [heq]; simp)

/-- Storing nodes in order keeps a database closed. -/
theorem Ordered.closed {s s' : σ} {stored : List (Hash × Bytes)} (h : Ordered s stored)
    (closed : Closed s) (hs : nodes s' = nodes s ∪ {e | e ∈ stored}) : Closed s' := by
  have old : ∀ c, Stored s c → Stored s' c := by
    rintro c ⟨data, hc⟩
    exact ⟨data, hs ▸ .inl hc⟩
  intro e he cs hcs c hc hne
  rw [hs] at he
  rcases he with he | he
  · exact old c (closed e he cs hcs c hc hne)
  · obtain ⟨before, behind, rfl⟩ := List.append_of_mem he
    obtain ⟨-, cs', hcs', hknown⟩ := h before e behind rfl
    rw [hcs, Except.ok.injEq] at hcs'
    subst hcs'
    rcases hknown c hc hne with hstored | hbefore
    · exact old c hstored
    · obtain ⟨b, hb, rfl⟩ := List.mem_map.mp hbefore
      exact ⟨b.2, hs ▸ .inr (by simp [hb])⟩

end Nodes

/-- A database that also remembers every list it was given to commit, whether that succeeded or
not, and what it held before. -/
structure Recorder (σ : Type) where
  store : σ
  given : List (σ × List (Hash × Bytes)) := []

namespace Recorder

variable {σ : Type} [NodeStore σ]

instance : NodeStore (Recorder σ) where
  hasNode r h := NodeStore.hasNode r.store h
  childHashes r h data := NodeStore.childHashes r.store h data
  commitNodes r batch :=
    (⟨(NodeStore.commitNodes r.store batch).1, r.given ++ [(r.store, batch)]⟩,
      (NodeStore.commitNodes r.store batch).2)

/-- All nodes that were given to commit, in order. -/
def log (r : Recorder σ) : List (Hash × Bytes) := r.given.flatMap Prod.snd

variable [LawfulNodeStore σ]

/-- The database is closed, and was so whenever it was given nodes, which were always ordered. -/
structure Safe (r : Recorder σ) : Prop where
  closed : Closed r.store
  given : ∀ g ∈ r.given, Closed g.1 ∧ Ordered g.1 g.2

theorem Safe.commit {r : Recorder σ} (h : r.Safe) {batch : List (Hash × Bytes)}
    (ordered : Ordered r.store batch) : (NodeStore.commitNodes r batch).1.Safe := by
  obtain ⟨stored, hprefix, hnodes, -⟩ := commitNodes_nodes r.store batch
  refine ⟨(ordered.initial hprefix).closed h.closed hnodes, fun g hg => ?_⟩
  rcases List.mem_append.mp hg with hg | hg
  · exact h.given g hg
  · obtain rfl := List.mem_singleton.mp hg
    exact ⟨h.closed, ordered⟩

end Recorder
/-- A database in memory that refuses nothing. -/
structure MemoryStore where
  nodes : List (Hash × Bytes)

namespace MemoryStore

def children (h : Hash) (data : Bytes) : Except StoreError (List Hash) :=
  match Simulation.decodeChildren? data with
  | some cs => .ok cs
  | none => .error (.malformedNode h)

instance : NodeStore MemoryStore where
  hasNode s h := .ok ((s.nodes.map Prod.fst).contains h)
  childHashes _ := children
  commitNodes s batch := (⟨s.nodes ++ batch⟩, .ok ())

instance : LawfulNodeStore MemoryStore where
  nodes s := {e | e ∈ s.nodes}
  children := children
  childHashes_eq _ _ _ := rfl
  hasNode_iff := by
    intro s h b hb
    cases hb
    simp
  commitNodes_nodes s batch := by
    refine ⟨batch, List.prefix_refl _, ?_, fun _ => rfl⟩
    ext e
    simp [NodeStore.commitNodes]

theorem decode_of_children {h : Hash} {data : Bytes} {cs : List Hash}
    (hcs : children h data = .ok cs) : Simulation.decodeChildren? data = some cs := by
  unfold children at hcs
  split at hcs
  · rename_i hd
    cases hcs
    exact hd
  · simp at hcs

end MemoryStore
end ChainSync
