import Mathlib.Data.Set.Basic
import ChainSync.Proofs.State.Cascade
set_option autoImplicit false

/-!
Taking in one node that was asked for, up to the database.
-/

namespace ChainSync.StateDownload

open LawfulNodeStore

variable {σ : Type} [NodeStore σ] [LawfulNodeStore σ]
variable {k : Scope σ} {r r' : Recorder σ} {d d' : StateDownload} {res : Except StoreError Unit}

/-- What is good after a step on the database: it is safe in any case, and nothing is lost track
of unless the step failed. -/
structure Kept (k : Scope σ) (hand : List Hash) (r : Recorder σ) (d : StateDownload) : Prop where
  tracked : Tracked k hand [] r.store d
  logged : Logged k r d

theorem flush_spec (h : Kept k [] r d) (hf : d.flush r = (d', r', res)) :
    k.Safe r' ∧ (res = .ok () → Kept k [] r' d' ∧ d'.membatch = []) := by
  unfold flush at hf
  split at hf
  · rename_i hempty
    cases hf
    exact ⟨h.logged.safe, fun _ => ⟨h, List.isEmpty_iff.mp hempty⟩⟩
  · have hsafe : k.Safe (NodeStore.commitNodes r d.membatch).1 := fun closed =>
      (h.logged.safe closed).commit h.logged.batch
    obtain ⟨stored, -, hnodes, hall⟩ := commitNodes_nodes r.store d.membatch
    cases hc : NodeStore.commitNodes r d.membatch with
    | mk r₁ outcome =>
      have hstore : r₁.store = (NodeStore.commitNodes r.store d.membatch).1 :=
        congrArg (·.1.store) hc.symm
      have hgiven : r₁.given = r.given ++ [(r.store, d.membatch)] := congrArg (·.1.given) hc.symm
      have houtcome : outcome = (NodeStore.commitNodes r.store d.membatch).2 :=
        congrArg Prod.snd hc.symm
      rw [hc] at hf hsafe
      cases outcome with
      | error err =>
        cases hf
        exact ⟨hsafe, fun hok => by cases hok⟩
      | ok u =>
        cases hf
        refine ⟨hsafe, fun _ => ⟨⟨?_, ?_⟩, rfl⟩⟩
        · obtain rfl := hall houtcome.symm
          refine h.tracked.congr (fun c => ?_) rfl rfl rfl
          simp only [Known, List.map_nil, List.not_mem_nil, false_or, Stored, hstore, hnodes,
            Set.mem_union, Set.mem_ofPred_eq, exists_or, List.mem_map, Prod.exists,
            exists_and_right, exists_eq_right]
          exact or_comm
        · obtain rfl := hall houtcome.symm
          have hlog : r'.log = r.log ++ d.membatch := by
            rw [Recorder.log, hgiven, List.flatMap_append]
            simp [Recorder.log]
          refine ⟨hsafe, fun _ => by simp, ordered_nil _, ?_, ?_, ?_, ?_⟩
          · rw [hstore, hnodes, h.logged.stored, hlog, Set.union_assoc]
            congr 1
            ext e
            simp
          · simpa only [List.append_nil, hlog] using h.logged.entries
          · simpa only [List.append_nil, hlog] using h.logged.once
          · simpa only [List.append_nil, hlog] using h.logged.committed

/-- A commit starts its cascade with the one node. -/
theorem Kept.cascading {e : Hash × Bytes} (h : Kept k [e.1] r d) (ready : k.Ready r.store d e) :
    Cascading k r (d.waiting.length + 1) [e] d :=
  ⟨h.tracked, h.logged, fun _ he => List.mem_singleton.mp he ▸ ready, (Nat.add_comm ..).le⟩

theorem commit_spec {e : Hash × Bytes} (h : Kept k [e.1] r d) (ready : k.Ready r.store d e)
    (hc : d.commit r e.1 e.2 = (d', r', res)) :
    k.Safe r' ∧ (res = .ok () → Kept k [] r' d' ∧ (d'.pending = 0 → d'.membatch = [])) := by
  obtain ⟨tracked, logged⟩ := tracked_cascade (h.cascading ready)
  simp only [commit] at hc
  split at hc
  · obtain ⟨safe, hok⟩ := flush_spec ⟨tracked, logged⟩ hc
    refine ⟨safe, fun hres => ?_⟩
    obtain ⟨kept, hempty⟩ := hok hres
    exact ⟨kept, fun _ => hempty⟩
  · rename_i hsmall
    cases hc
    exact ⟨logged.safe, fun _ => ⟨⟨tracked, logged⟩, fun hz => absurd (.inr hz) hsmall⟩⟩

theorem Scope.Node.descends {e : Hash × Bytes} (node : k.Node e) (wanted : k.wanted e.1)
    {cs : List Hash} (hcs : children σ e.1 e.2 = .ok cs) :
    e.1 ∉ cs ∧ ∀ c ∈ cs, c ≠ emptyTrieHash → k.wanted c := by
  rw [← node.1] at wanted hcs ⊢
  exact ⟨k.irreflexive e.2 node.2 cs hcs, k.descends e.2 node.2 wanted cs hcs⟩

section Waiting

variable {s : σ} {d₁ : StateDownload} {e : Hash × Bytes} {cs missing : List Hash}

theorem Tracked.not_mem_of_hand (h : Tracked k [e.1] [] s d) :
    e.1 ∉ d.unfinished ∧ e.1 ∉ d.waiting.map Prod.fst ∧ e.1 ∉ d.links := by
  have hnot : e.1 ∉ d.unfinished := fun hm =>
    (List.nodup_append.mp h.missing.nodup).2.2 _ hm _ (List.mem_singleton_self _) rfl
  have hnotw : e.1 ∉ d.waiting.map Prod.fst := fun hm => hnot (List.mem_append_right _ hm)
  exact ⟨hnot, hnotw, fun hm => hnotw (h.waits.owner _ (by rwa [List.append_nil]))⟩

variable (h : Tracked k [e.1] [] s d) (node : k.Node e) (hcs : children σ e.1 e.2 = .ok cs)
  (linked : Linked e.1 missing d d₁)
  (hmissing : ∀ c ∈ missing, c ∈ cs ∧ c ≠ emptyTrieHash ∧ ¬ Known s d c)
include h node hcs linked hmissing

theorem missing_of_linked :
    ∃ new, d₁.scheduled.map Prod.fst = d.scheduled.map Prod.fst ++ new ∧
      Missing k s d₁ (new ++ (d.unfinished ++ [e.1])) := by
  obtain ⟨new, hkeys, -, hnew, hfresh⟩ := linked.scheduled_keys
  obtain ⟨hself, hdesc⟩ := node.descends (h.missing.wanted _ (by simp)) hcs
  refine ⟨new, hkeys, List.nodup_append.mpr ⟨hnew, h.missing.nodup, fun a ha b hb hab => ?_⟩,
    fun c hc => ?_, fun c hc => ?_, fun hne => ?_, fun c hc => ?_⟩
  · subst hab
    obtain ⟨hm, hns, hnw⟩ := hfresh a ha
    rcases List.mem_append.mp hb with hb | hb
    · exact (List.mem_append.mp hb).elim hns hnw
    · obtain rfl := List.mem_singleton.mp hb
      exact hself (hmissing _ hm).1
  · rw [linked.known]
    rcases List.mem_append.mp hc with hc | hc
    · exact (hmissing c (hfresh c hc).1).2.2
    · exact h.missing.unknown c hc
  · rcases List.mem_append.mp hc with hc | hc
    · have hm := hmissing c (hfresh c hc).1
      exact hdesc c hm.1 hm.2.1
    · exact h.missing.wanted c hc
  · rw [linked.known]
    exact (h.missing.root hne).imp_right (List.mem_append_right _)
  · rcases linked.keys c hc with hc | hc
    · exact List.mem_append_right _ (h.missing.parents c hc)
    · rcases linked.sought c hc with hc | hc
      · rw [hkeys, List.mem_append] at hc
        rcases hc with hc | hc
        · exact List.mem_append_right _ (by simp [unfinished, hc])
        · exact List.mem_append_left _ hc
      · exact List.mem_append_right _ (by simp [unfinished, hc])

/-- A node that was linked to children it lacks waits for them. -/
theorem tracked_wait (pos : 0 < missing.length)
    (hall : ∀ c ∈ cs, c ≠ emptyTrieHash → Known s d c ∨ c ∈ missing) :
    Tracked k [] [] s { d₁ with
      waiting := d₁.waiting.filter (·.1 != e.1) ++ [(e.1, ⟨e.2, missing.length⟩)] } := by
  obtain ⟨new, hkeys, hnew⟩ := missing_of_linked h node hcs linked hmissing
  obtain ⟨-, hnotw, hnotl⟩ := h.not_mem_of_hand
  have hwaiting : d₁.waiting = d.waiting := by rw [linked.others]
  have hlinks := linked.links
  rw [hwaiting, Keyed.filter_eq_self hnotw]
  refine ⟨(hnew.perm ?_).congr rfl rfl, ⟨fun w hw => ?_, fun w hw => ?_, fun q hq => ?_,
    linked.nodup, fun w hw => ?_, fun w hw => ?_⟩⟩
  · simp only [unfinished, hkeys, List.map_append, List.map_cons, List.map_nil, List.append_nil,
      List.append_assoc]
    exact List.perm_append_comm_assoc _ _ _
  · rcases List.mem_append.mp hw with hw | hw
    · exact h.waits.positive w hw
    · obtain rfl := List.mem_singleton.mp hw
      exact pos
  · change w.2.missingChildren = (d₁.links ++ []).count w.1
    rw [List.append_nil, hlinks.count_eq, List.count_append, List.count_replicate]
    rcases List.mem_append.mp hw with hw | hw
    · have hne : (e.1 == w.1) = false := by
        simpa using fun heq : e.1 = w.1 => hnotw (heq ▸ List.mem_map_of_mem hw)
      have hcount := h.waits.count w hw
      rw [List.append_nil] at hcount
      simp [hne, hcount]
    · obtain rfl := List.mem_singleton.mp hw
      simp [List.count_eq_zero.mpr hnotl]
  · change q ∈ d₁.links ++ [] at hq
    rw [List.append_nil, hlinks.mem_iff, List.mem_append] at hq
    rw [List.map_append, List.mem_append]
    rcases hq with hq | hq
    · exact .inr (by simp [(List.mem_replicate.mp hq).2])
    · exact .inl (h.waits.owner q (by rwa [List.append_nil]))
  · rcases List.mem_append.mp hw with hw | hw
    · exact h.waits.node w hw
    · obtain rfl := List.mem_singleton.mp hw
      exact node
  · change Complete σ (fun c => Known s d₁ c ∨ w.1 ∈ d₁.parentsOf c) (w.1, w.2.data)
    rcases List.mem_append.mp hw with hw | hw
    · refine (h.waits.children w hw).mono fun c hc => ?_
      rw [linked.known, linked.parentsOf]
      exact hc.imp_right .inl
    · obtain rfl := List.mem_singleton.mp hw
      refine ⟨cs, hcs, fun c hc hne => ?_⟩
      change Known s d₁ c ∨ e.1 ∈ d₁.parentsOf c
      rw [linked.known, linked.parentsOf]
      exact (hall c hc hne).imp_right fun hm => .inr ⟨rfl, hm⟩

end Waiting

/-- A node that has no missing child is ready, and linking it changed nothing. -/
theorem Kept.ready_of_link {e : Hash × Bytes} {cs : List Hash} (h : Kept k [e.1] r d)
    (node : k.Node e) (hcs : children σ e.1 e.2 = .ok cs) (hl : d.link r e.1 cs = (d', .ok 0)) :
    d' = d ∧ k.Ready r.store d e := by
  obtain ⟨missing, hlen, linked, -, hall⟩ :=
    linked_of_link h.tracked.waits.nodup h.logged.hashes hl
  obtain rfl := List.eq_nil_of_length_eq_zero hlen
  refine ⟨linked.same rfl, node, cs, hcs, fun c hc hne => ?_⟩
  exact (hall c hc hne).resolve_right List.not_mem_nil

theorem process_spec {e : Hash × Bytes} (h : Kept k [e.1] r d) (node : k.Node e)
    (hp : d.process r e.1 e.2 = (d', r', res)) :
    k.Safe r' ∧ (res = .ok () → Kept k [] r' d' ∧ (d'.pending = 0 → d'.membatch = [])) := by
  unfold process at hp
  have hchildren : NodeStore.childHashes r e.1 e.2 = children σ e.1 e.2 :=
    childHashes_eq r.store e.1 e.2
  rw [hchildren] at hp
  cases hcs : children σ e.1 e.2 with
  | error err =>
    rw [hcs] at hp
    cases hp
    exact ⟨h.logged.safe, fun hok => by cases hok⟩
  | ok cs =>
    rw [hcs] at hp
    simp only at hp
    cases hl : d.link r e.1 cs with
    | mk d₁ outcome =>
      rw [hl] at hp
      cases outcome with
      | error err =>
        cases hp
        exact ⟨h.logged.safe, fun hok => by cases hok⟩
      | ok n =>
        cases n with
        | zero =>
          obtain ⟨rfl, ready⟩ := h.ready_of_link node hcs hl
          exact commit_spec h ready hp
        | succ n =>
          cases hp
          obtain ⟨missing, hlen, linked, hmissing, hall⟩ :=
            linked_of_link h.tracked.waits.nodup h.logged.hashes hl
          refine ⟨h.logged.safe, fun _ => ⟨⟨?_, ?_⟩, fun hz => ?_⟩⟩
          · exact hlen ▸ tracked_wait h.tracked node hcs linked hmissing (by omega) hall
          · rw [linked.others]
            exact ⟨h.logged.safe, h.logged.hashes, h.logged.batch, h.logged.stored,
              h.logged.entries, h.logged.once, h.logged.committed⟩
          · simp [pending] at hz

end ChainSync.StateDownload
