import Mathlib.Data.List.Count
import ChainSync.Proofs.State.Links
set_option autoImplicit false

/-!
What a download knows to be missing, and who waits for it.
-/

namespace ChainSync.StateDownload

open LawfulNodeStore

/-- What a download is about: the database and the root it starts from, the data that peers may
send, and the hashes that it may come across. Of the order of children only this is needed, that
no node is a child of its own. -/
structure Scope (σ : Type) [NodeStore σ] [LawfulNodeStore σ] where
  origin : σ
  root : Hash
  sent : Bytes → Prop
  wanted : Hash → Prop
  descends : ∀ data, sent data → wanted (keccak data) →
    ∀ cs, children σ (keccak data) data = .ok cs → ∀ c ∈ cs, c ≠ emptyTrieHash → wanted c
  irreflexive : ∀ data, sent data →
    ∀ cs, children σ (keccak data) data = .ok cs → keccak data ∉ cs

variable {σ : Type} [NodeStore σ] [LawfulNodeStore σ]

/-- A node that was sent, under its own digest. -/
def Scope.Node (k : Scope σ) (e : Hash × Bytes) : Prop := keccak e.2 = e.1 ∧ k.sent e.2

def unfinished (d : StateDownload) : List Hash :=
  d.scheduled.map Prod.fst ++ d.waiting.map Prod.fst

/-- The hashes of which the download knows that they are missing: the unfinished ones, and those
that it has in hand. -/
structure Missing (k : Scope σ) (s : σ) (d : StateDownload) (hashes : List Hash) : Prop where
  nodup : hashes.Nodup
  unknown : ∀ h ∈ hashes, ¬ Known s d h
  wanted : ∀ h ∈ hashes, k.wanted h
  root : k.root ≠ emptyTrieHash → Known s d k.root ∨ k.root ∈ hashes
  parents : ∀ c ∈ d.parents.map Prod.fst, c ∈ hashes

theorem Missing.perm {k : Scope σ} {s : σ} {d : StateDownload} {hashes others : List Hash}
    (h : Missing k s d hashes) (hp : hashes.Perm others) : Missing k s d others :=
  ⟨hp.nodup_iff.mp h.nodup, fun c hc => h.unknown c (hp.mem_iff.mpr hc),
    fun c hc => h.wanted c (hp.mem_iff.mpr hc), fun hne => (h.root hne).imp_right hp.mem_iff.mp,
    fun c hc => hp.mem_iff.mp (h.parents c hc)⟩

theorem Missing.congr {k : Scope σ} {s : σ} {d d' : StateDownload} {hashes : List Hash}
    (h : Missing k s d hashes) (parents : d'.parents = d.parents)
    (batch : d'.membatch = d.membatch) : Missing k s d' hashes := by
  refine ⟨h.nodup, fun c hc => ?_, h.wanted, fun hne => ?_, fun c hc => ?_⟩
  · rw [Known, batch]
    exact h.unknown c hc
  · rw [Known, batch]
    exact h.root hne
  · exact h.parents c (parents ▸ hc)

/-- Every waiting node counts the links to it. `owed` are links that were cut already, of which
the nodes have still to be told. -/
structure Waits (k : Scope σ) (s : σ) (owed : List Hash) (d : StateDownload) : Prop where
  positive : ∀ e ∈ d.waiting, 0 < e.2.missingChildren
  count : ∀ e ∈ d.waiting, e.2.missingChildren = (d.links ++ owed).count e.1
  owner : ∀ p ∈ d.links ++ owed, p ∈ d.waiting.map Prod.fst
  nodup : (d.parents.map Prod.fst).Nodup
  node : ∀ e ∈ d.waiting, k.Node (e.1, e.2.data)
  children : ∀ e ∈ d.waiting,
    Complete σ (fun c => Known s d c ∨ e.1 ∈ d.parentsOf c) (e.1, e.2.data)

structure Tracked (k : Scope σ) (hand owed : List Hash) (s : σ) (d : StateDownload) : Prop where
  missing : Missing k s d (d.unfinished ++ hand)
  waits : Waits k s owed d

/-- A node in hand that lacks nothing. -/
def Scope.Ready (k : Scope σ) (s : σ) (d : StateDownload) (e : Hash × Bytes) : Prop :=
  k.Node e ∧ Complete σ (Known s d) e

theorem mem_links_of_parentsOf {d : StateDownload} {c p : Hash} (h : p ∈ d.parentsOf c) :
    p ∈ d.links := by
  unfold parentsOf at h
  cases hl : d.parents.lookup c with
  | none => simp [hl] at h
  | some ps =>
    rw [hl, Option.getD_some] at h
    exact List.mem_flatMap.mpr ⟨(c, ps), Keyed.mem_of_lookup hl, h⟩

/-- Telling a node of a child changes what waits, and nothing else. -/
theorem settleParent_eq (d : StateDownload) (p : Hash) :
    (d.settleParent p).1 = { d with waiting := (d.settleParent p).1.waiting } := by
  unfold settleParent
  split
  · rfl
  · split <;> rfl

theorem settleParent_of_last {d : StateDownload} {p : Hash} {node : WaitingNode}
    (h : d.waiting.lookup p = some node) (last : node.missingChildren = 1) :
    d.settleParent p =
      ({ d with waiting := d.waiting.filter (·.1 != p) }, [(p, node.data)]) := by
  simp only [settleParent, h, if_pos last]

theorem settleParent_of_more {d : StateDownload} {p : Hash} {node : WaitingNode}
    (h : d.waiting.lookup p = some node) (more : node.missingChildren ≠ 1) :
    d.settleParent p =
      ({ d with waiting := d.waiting.map fun e =>
          if e.1 = p then (e.1, { e.2 with missingChildren := e.2.missingChildren - 1 })
          else (e.1, e.2) }, []) := by
  simp only [settleParent, h, if_neg more]

variable {k : Scope σ} {s : σ} {d : StateDownload} {hand owed : List Hash}

theorem Tracked.nodup_waiting (h : Tracked k hand owed s d) : (d.waiting.map Prod.fst).Nodup :=
  (h.missing.nodup.of_append_left).of_append_right

/-- Which hashes are unfinished matters, and what is known; not where the rest of them is. -/
theorem Tracked.congr {s' : σ} {d' : StateDownload} (h : Tracked k hand owed s d)
    (known : ∀ c, Known s' d' c ↔ Known s d c)
    (scheduled : d'.scheduled.map Prod.fst = d.scheduled.map Prod.fst)
    (waiting : d'.waiting = d.waiting) (parents : d'.parents = d.parents) :
    Tracked k hand owed s' d' := by
  have hunfinished : d'.unfinished = d.unfinished := by
    rw [unfinished, unfinished, scheduled, waiting]
  have hlinks : d'.links = d.links := by rw [links, links, parents]
  refine ⟨⟨hunfinished ▸ h.missing.nodup, fun c hc => ?_, hunfinished ▸ h.missing.wanted,
    fun hne => ?_, fun c hc => ?_⟩, ⟨waiting ▸ h.waits.positive, fun e he => ?_, fun q hq => ?_,
    parents ▸ h.waits.nodup, waiting ▸ h.waits.node, fun e he => ?_⟩⟩
  · rw [known]
    exact h.missing.unknown c (hunfinished ▸ hc)
  · rw [known, hunfinished]
    exact h.missing.root hne
  · rw [hunfinished]
    exact h.missing.parents c (parents ▸ hc)
  · rw [hlinks]
    exact h.waits.count e (waiting ▸ he)
  · rw [waiting]
    exact h.waits.owner q (hlinks ▸ hq)
  · refine (h.waits.children e (waiting ▸ he)).mono fun c hc => ?_
    rwa [known, parentsOf, parents]

section Settle

variable {p : Hash} {node : WaitingNode}

/-- The count of a node includes the cut link that it is about to be told of. -/
theorem Tracked.count_owed (h : Tracked k hand (p :: owed) s d) (hm : (p, node) ∈ d.waiting) :
    node.missingChildren = (d.links ++ owed).count p + 1 := by
  have hcount := h.waits.count _ hm
  rwa [List.count_append, List.count_cons_self, ← Nat.add_assoc, ← List.count_append] at hcount

theorem Tracked.count_other (h : Tracked k hand (p :: owed) s d) {e : Hash × WaitingNode}
    (he : e ∈ d.waiting) (hne : e.1 ≠ p) :
    e.2.missingChildren = (d.links ++ owed).count e.1 := by
  rw [h.waits.count e he, List.count_append, List.count_cons_of_ne hne.symm, ← List.count_append]

theorem Tracked.owner_owed (h : Tracked k hand (p :: owed) s d) {q : Hash}
    (hq : q ∈ d.links ++ owed) : q ∈ d.waiting.map Prod.fst := by
  refine h.waits.owner q ?_
  rcases List.mem_append.mp hq with hq | hq
  · exact List.mem_append_left _ hq
  · exact List.mem_append_right _ (List.mem_cons_of_mem _ hq)

/-- A node that waited for this child alone is in hand then, and nothing links to it any more. -/
theorem tracked_settle_last (h : Tracked k hand (p :: owed) s d) (hm : (p, node) ∈ d.waiting)
    (last : node.missingChildren = 1) :
    Tracked k (hand ++ [p]) owed s { d with waiting := d.waiting.filter (·.1 != p) } ∧
      k.Ready s d (p, node.data) := by
  have hcount := h.count_owed hm
  have hgone : p ∉ d.links ++ owed := List.count_eq_zero.mp (by omega)
  have hsub : ∀ e ∈ d.waiting.filter (·.1 != p), e ∈ d.waiting ∧ e.1 ≠ p := by
    intro e he
    rw [List.mem_filter, bne_iff_ne] at he
    exact he
  refine ⟨⟨(h.missing.perm ?_).congr rfl rfl, fun e he => h.waits.positive e (hsub e he).1,
    fun e he => h.count_other (hsub e he).1 (hsub e he).2, fun q hq => ?_, h.waits.nodup,
    fun e he => h.waits.node e (hsub e he).1, fun e he => h.waits.children e (hsub e he).1⟩,
    h.waits.node (p, node) hm, (h.waits.children (p, node) hm).mono fun c hc => ?_⟩
  · have hperm := (Keyed.perm_cons_filter h.nodup_waiting hm).map Prod.fst
    refine ((hperm.append_left _).append_right hand).trans ?_
    simp only [unfinished, List.map_cons, List.append_assoc]
    refine List.Perm.append_left _ ?_
    rw [← List.append_assoc]
    exact (List.perm_append_singleton p _).symm
  · have hne : q ≠ p := by rintro rfl; exact hgone hq
    rw [Keyed.map_fst_filter, List.mem_filter, bne_iff_ne]
    exact ⟨h.owner_owed hq, hne⟩
  · exact hc.resolve_right fun hp => hgone (List.mem_append_left _ (mem_links_of_parentsOf hp))

theorem tracked_settle_more (h : Tracked k hand (p :: owed) s d) (hm : (p, node) ∈ d.waiting)
    (more : node.missingChildren ≠ 1) :
    Tracked k hand owed s { d with waiting := d.waiting.map fun e =>
      if e.1 = p then (e.1, { e.2 with missingChildren := e.2.missingChildren - 1 })
      else (e.1, e.2) } := by
  have hkeys : (d.waiting.map fun e =>
      if e.1 = p then (e.1, { e.2 with missingChildren := e.2.missingChildren - 1 })
      else (e.1, e.2)).map Prod.fst = d.waiting.map Prod.fst := by
    rw [List.map_map]
    refine List.map_congr_left fun e _ => ?_
    simp only [Function.comp_apply]
    split <;> rfl
  have hsame : ∀ e ∈ d.waiting, e.1 = p → e.2 = node := by
    intro e he heq
    have hl := (Keyed.lookup_eq_some_iff h.nodup_waiting).mpr he
    rw [heq, (Keyed.lookup_eq_some_iff h.nodup_waiting).mpr hm] at hl
    exact (Option.some_inj.mp hl).symm
  have hcount := h.count_owed hm
  refine ⟨?_, fun e he => ?_, fun e he => ?_, fun q hq => ?_, h.waits.nodup, fun e he => ?_,
    fun e he => ?_⟩
  · rw [unfinished, hkeys]
    exact h.missing.congr rfl rfl
  · obtain ⟨e, hw, rfl⟩ := List.mem_map.mp he
    split
    · rename_i heq
      rw [hsame e hw heq]
      exact Nat.sub_pos_of_lt (by omega)
    · exact h.waits.positive e hw
  · obtain ⟨e, hw, rfl⟩ := List.mem_map.mp he
    split
    · rename_i heq
      simp only [hsame e hw heq, hcount, Nat.add_sub_cancel, heq]
      rfl
    · rename_i hne
      exact h.count_other hw hne
  · rw [hkeys]
    exact h.owner_owed hq
  · obtain ⟨e, hw, rfl⟩ := List.mem_map.mp he
    have hn := h.waits.node e hw
    split <;> exact hn
  · obtain ⟨e, hw, rfl⟩ := List.mem_map.mp he
    have hn := h.waits.children e hw
    split <;> exact hn

/-- Telling one node of one child keeps the counts right. -/
theorem tracked_settleParent (h : Tracked k hand (p :: owed) s d) :
    Tracked k (hand ++ (d.settleParent p).2.map Prod.fst) owed s (d.settleParent p).1 ∧
      (∀ e ∈ (d.settleParent p).2, k.Ready s d e) ∧
      (d.settleParent p).1.waiting.length + (d.settleParent p).2.length = d.waiting.length := by
  have hp := h.waits.owner p (by simp)
  obtain ⟨node, hnode⟩ := Option.isSome_iff_exists.mp (Keyed.lookup_isSome_iff.mpr hp)
  have hm := Keyed.mem_of_lookup hnode
  by_cases last : node.missingChildren = 1
  · obtain ⟨tracked, ready⟩ := tracked_settle_last h hm last
    have hlen := (Keyed.perm_cons_filter h.nodup_waiting hm).length_eq
    rw [List.length_cons] at hlen
    rw [settleParent_of_last hnode last]
    exact ⟨tracked, fun e he => List.mem_singleton.mp he ▸ ready, hlen.symm⟩
  · have tracked := tracked_settle_more h hm last
    rw [settleParent_of_more hnode last]
    exact ⟨by rwa [List.map_nil, List.append_nil], by simp, by simp⟩

end Settle

end ChainSync.StateDownload
