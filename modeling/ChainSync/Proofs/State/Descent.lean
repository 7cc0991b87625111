import Mathlib.Data.Fintype.Card
import Mathlib.Data.List.Perm.Subperm
import Mathlib.Data.Set.Finite.Basic
import Mathlib.Logic.Relation
import Mathlib.Order.WellFounded
import ChainSync.Proofs.State.Download
set_option autoImplicit false

/-!
Whoever waits for a hash is a node that was sent, and has that hash among its children. So what
waits leads down, child by child, to something that can be asked for.
-/

namespace ChainSync.StateDownload

open Fetch LawfulNodeStore

variable {σ : Type} [NodeStore σ] [LawfulNodeStore σ]

variable (σ) in
/-- One of the children of a node that was sent. -/
def Child (sent : Bytes → Prop) (parent child : Hash) : Prop :=
  ∃ data, sent data ∧ keccak data = parent ∧
    ∃ cs, children σ parent data = .ok cs ∧ child ∈ cs

/-- Links only lead from children to their parents. -/
def Descends (child : Hash → Hash → Prop) (d : StateDownload) : Prop :=
  ∀ c, ∀ p ∈ d.parentsOf c, child p c

variable {child : Hash → Hash → Prop} {d d' : StateDownload}

theorem Descends.of_parents (h : Descends child d) (parents : d'.parents = d.parents) :
    Descends child d' := by
  intro c p hp
  rw [parentsOf, parents] at hp
  exact h c p hp

omit [LawfulNodeStore σ] in
/-- Nobody waits at the start. -/
theorem descends_start {session commitBatch : Nat} {root : Hash} {store : σ}
    (opened : start session root store commitBatch = .ok d) : Descends child d := by
  have recorded : start session root (⟨store, []⟩ : Recorder σ) commitBatch = .ok d := opened
  have blank := start_blank recorded
  intro c p hp
  simp [parentsOf, blank.2.1] at hp

omit [LawfulNodeStore σ] in
theorem descends_link {store : σ} {hash : Hash} {cs : List Hash} (h : Descends child d)
    (hcs : ∀ c ∈ cs, child hash c) : Descends child (d.link store hash cs).1 := by
  induction cs generalizing d with
  | nil => exact h
  | cons c rest ih =>
    have hrest : ∀ c ∈ rest, child hash c := fun c hc => hcs c (List.mem_cons_of_mem _ hc)
    have linked : Descends child (d.linkChild hash c) := by
      intro c' p hp
      obtain ⟨new, heq, -⟩ := d.linkChild_eq hash c
      rw [heq] at hp
      change p ∈ (d.addParent c hash).parentsOf c' at hp
      rw [parentsOf_addParent] at hp
      split at hp
      · rename_i hc
        rcases List.mem_append.mp hp with hp | hp
        · exact h c' p hp
        · rw [List.mem_singleton.mp hp, hc]
          exact hcs c (List.mem_cons_self ..)
      · exact h c' p hp
    simp only [link]
    split
    · exact ih h hrest
    · split
      · exact h
      · exact ih h hrest
      · have hmore := ih linked hrest
        rw [linkChild] at hmore
        split <;> rename_i heq <;> rwa [heq] at hmore

theorem parents_settleParents (d : StateDownload) (ps : List Hash) :
    (d.settleParents ps).1.parents = d.parents := by
  induction ps generalizing d with
  | nil => rfl
  | cons p ps ih =>
    have settled : (d.settleParent p).1.parents = d.parents := by
      unfold settleParent
      split
      · rfl
      · split <;> rfl
    exact (ih _).trans settled

theorem descends_cascade {fuel : Nat} {ready : List (Hash × Bytes)} (h : Descends child d) :
    Descends child (d.cascade fuel ready) := by
  induction fuel generalizing d ready with
  | zero => exact h
  | succ fuel ih =>
    rcases List.eq_nil_or_concat ready with rfl | ⟨front, e, rfl⟩
    · exact h
    · rw [List.concat_eq_append, cascade_succ]
      refine ih (Descends.of_parents (d := d.finish e) (fun c p hp => ?_)
        (parents_settleParents ..))
      simp only [parentsOf, finish] at hp
      cases hl : (d.parents.filter (·.1 != e.1)).lookup c with
      | none => simp [hl] at hp
      | some ps =>
        refine h c p ?_
        rw [parentsOf, Keyed.lookup_of_filter hl, Option.getD_some]
        rwa [hl, Option.getD_some] at hp

omit [LawfulNodeStore σ] in
theorem parents_flush (d : StateDownload) (store : σ) :
    (d.flush store).1.parents = d.parents := by
  unfold flush
  split
  · rfl
  · split <;> rfl

section Sent

variable {sent : Bytes → Prop}

theorem descends_process {r : Recorder σ} {data : Bytes} (h : Descends (Child σ sent) d)
    (hdata : sent data) : Descends (Child σ sent) (d.process r (keccak data) data).1 := by
  unfold process
  split
  · exact h
  · rename_i cs hcs
    have hcs : NodeStore.childHashes r.store (keccak data) data = .ok cs := hcs
    rw [childHashes_eq] at hcs
    have linked : Descends (Child σ sent) (d.link r (keccak data) cs).1 :=
      descends_link h fun c hc => ⟨data, hdata, rfl, cs, hcs, hc⟩
    split <;> rename_i heq <;> rw [heq] at linked
    · exact linked
    · simp only [commit]
      split
      · exact (descends_cascade linked).of_parents (parents_flush ..)
      · exact descends_cascade linked
    · exact linked.of_parents rfl

theorem descends_takeIn {r : Recorder σ} {outstanding : List Hash} {accepted unrequested : Nat}
    {nodes : List Bytes} (h : Descends (Child σ sent) d) (hnodes : ∀ b ∈ nodes, sent b) :
    Descends (Child σ sent) (d.takeIn r outstanding accepted unrequested nodes).1 := by
  induction nodes generalizing d r outstanding accepted unrequested with
  | nil => exact h
  | cons data rest ih =>
    have hrest : ∀ b ∈ rest, sent b := fun b hb => hnodes b (List.mem_cons_of_mem _ hb)
    simp only [takeIn]
    split
    · have processed := descends_process (r := r)
        (d := { d with scheduled := d.scheduled.filter (·.1 != keccak data) })
        (h.of_parents rfl) (hnodes data (List.mem_cons_self ..))
      split <;> rename_i heq <;> rw [heq] at processed
      · exact processed
      · exact ih processed hrest
    · exact ih h hrest

theorem descends_deliver {r : Recorder σ} {id : RequestId} {peer : PeerId} {nodes : List Bytes}
    (h : Descends (Child σ sent) d) (hnodes : ∀ b ∈ nodes, sent b) :
    Descends (Child σ sent) (d.deliver r id peer nodes).1 := by
  unfold deliver
  split
  · exact h
  · rename_i requested _
    have taken : Descends (Child σ sent)
        (({ d with inFlight := d.inFlight.filter (·.1 != id) } : StateDownload).takeIn r requested 0 0
          nodes).1 := descends_takeIn (h.of_parents rfl) hnodes
    simp only
    split <;> rename_i heq <;> rw [heq] at taken
    · exact taken
    · exact taken.of_parents (moved_requeueAll ..).parents

variable {k : Scope σ} {t : Desk (Recorder σ) StateDownload}

theorem descends_apply {m : Move} (s : Sound k [] t.board.store t.task)
    (h : Descends (Child σ sent) t.task) (hm : ∀ b ∈ receivedNodes [m], sent b) :
    Descends (Child σ sent) (t.apply m).task := by
  cases m with
  | reserve peer capacity live =>
    simp only [Desk.apply]
    split
    · exact h
    · rename_i hr
      exact h.of_parents (placed_reserve s.placed hr).2.parents
  | deliver id peer payload =>
    have hsent : ∀ b ∈ payload.nodesOf, sent b := by
      simpa [receivedNodes, received, Move.payload?] using hm
    have delivered : Descends (Child σ sent)
        (t.task.deliver t.board.store id peer payload.nodesOf).1 := descends_deliver h hsent
    simp only [Desk.apply, Receiver.deliver]
    generalize t.task.deliver t.board.store id peer payload.nodesOf = x at delivered
    obtain ⟨d', r', outcome⟩ := x
    cases outcome <;> exact delivered
  | fail id => exact h.of_parents (placed_fail s.placed id).2.parents
  | failPeer peer => exact h.of_parents (placed_failPeer s.placed peer).2.parents

theorem descends_run {moves : List Move} (s : Sound k [] t.board.store t.task)
    (h : Descends (Child σ k.sent) t.task) (hm : ∀ b ∈ receivedNodes moves, k.sent b)
    (ok : (t.run moves).error = none) : Descends (Child σ k.sent) (t.run moves).task :=
  (Desk.run_ok_invariant
    (P := fun t => Sound k [] t.board.store t.task ∧ Descends (Child σ k.sent) t.task) ⟨s, h⟩
    (fun _ m hin ht hok =>
      have hsent : ∀ b ∈ receivedNodes [m], k.sent b := fun b hb =>
        hm b (mem_receivedNodes.mpr ⟨m, hin, hb⟩)
      ⟨(sound_apply ht.1 hsent).2 hok, descends_apply ht.1 ht.2 hsent⟩) ok).2

end Sent

/-- The links, told by the hashes that are waited for. -/
theorem links_eq (hn : (d.parents.map Prod.fst).Nodup) :
    d.links = (d.parents.map Prod.fst).flatMap d.parentsOf := by
  rw [links, List.flatMap_map]
  refine List.flatMap_congr fun e he => ?_
  rw [parentsOf, (Keyed.lookup_eq_some_iff hn).mpr (show (e.1, e.2) ∈ d.parents from he),
    Option.getD_some]

/-- Hashes that nobody waits for add nothing. -/
theorem links_perm {hashes : List Hash} (hn : (d.parents.map Prod.fst).Nodup)
    (nodup : hashes.Nodup) (sub : ∀ c ∈ d.parents.map Prod.fst, c ∈ hashes) :
    d.links.Perm (hashes.flatMap d.parentsOf) := by
  obtain ⟨keys, hkeys, hsub⟩ := List.subperm_of_subset hn sub
  obtain ⟨others, hrest⟩ := hsub.exists_perm_append
  have hperm := hrest.trans (hkeys.append_right others)
  have hnone : others.flatMap d.parentsOf = [] := by
    refine List.flatMap_eq_nil_iff.mpr fun c hc => ?_
    have hnot : c ∉ d.parents.map Prod.fst := fun hm =>
      (List.nodup_append.mp (hperm.nodup_iff.mp nodup)).2.2 c hm c hc rfl
    rw [parentsOf, Keyed.lookup_eq_none_iff.mpr hnot, Option.getD_none]
  have hflat := hperm.flatMap_right d.parentsOf
  rw [List.flatMap_append, hnone, List.append_nil, ← links_eq hn] at hflat
  exact hflat.symm

variable {k : Scope σ} {r : Recorder σ}

theorem Tracked.links_perm {s : σ} (h : Tracked k [] [] s d) :
    d.links.Perm (d.unfinished.flatMap d.parentsOf) := by
  have hmissing := h.missing
  rw [List.append_nil] at hmissing
  exact StateDownload.links_perm h.waits.nodup hmissing.nodup hmissing.parents

/-- A waiting node waits for something unfinished. -/
theorem Tracked.exists_awaited {s : σ} (h : Tracked k [] [] s d) {p : Hash}
    (hp : p ∈ d.waiting.map Prod.fst) : ∃ c ∈ d.unfinished, p ∈ d.parentsOf c := by
  obtain ⟨e, he, rfl⟩ := List.mem_map.mp hp
  have hpos := h.waits.positive e he
  rw [h.waits.count e he, List.append_nil, List.count_pos_iff, h.links_perm.mem_iff] at hpos
  exact List.mem_flatMap.mp hpos

/-- As long as something is missing there is something to ask for: below a waiting node that
waits for waiting nodes only there would have to be a cycle. -/
theorem exists_scheduled {s : σ} (h : Tracked k [] [] s d) (desc : Descends child d)
    (acyclic : ∀ h, ¬ Relation.TransGen child h h) (pending : 0 < d.pending) :
    d.scheduled ≠ [] := by
  intro none
  have all : ∀ p ∈ d.waiting.map Prod.fst, ∃ c ∈ d.waiting.map Prod.fst, child p c := by
    intro p hp
    obtain ⟨c, hc, hpc⟩ := h.exists_awaited hp
    rw [unfinished, none, List.map_nil, List.nil_append] at hc
    exact ⟨c, hc, desc c p hpc⟩
  let below (a b : {p // p ∈ d.waiting.map Prod.fst}) : Prop := Relation.TransGen child b.1 a.1
  have finite : Finite {p // p ∈ d.waiting.map Prod.fst} := (List.finite_toSet _).to_subtype
  have trans : IsTrans _ below := ⟨fun _ _ _ hab hbc => hbc.trans hab⟩
  have irrefl : Std.Irrefl below := ⟨fun a => acyclic a.1⟩
  have founded : WellFounded below := Finite.wellFounded_of_trans_of_irrefl below
  have some : d.waiting ≠ [] := by
    rintro hw
    simp [StateDownload.pending, none, hw] at pending
  obtain ⟨e, he⟩ := List.exists_mem_of_ne_nil _ some
  obtain ⟨⟨p, hp⟩, -, least⟩ := founded.has_min Set.univ ⟨⟨e.1, List.mem_map_of_mem he⟩, trivial⟩
  obtain ⟨c, hc, hpc⟩ := all p hp
  exact least ⟨c, hc⟩ trivial (.single hpc)

end ChainSync.StateDownload
