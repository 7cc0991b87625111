import Mathlib.Data.Set.Function
import ChainSync.Proofs.State.Download
set_option autoImplicit false

/-!
A download that is done has brought the whole trie, and nothing else.
-/

namespace ChainSync.StateDownload

open Fetch LawfulNodeStore

variable {σ : Type} [NodeStore σ] [LawfulNodeStore σ]

variable (σ) in
/-- The hashes that a root leads to through the given nodes, empty tries left out. -/
inductive Reachable (trie : Set (Hash × Bytes)) (root : Hash) : Hash → Prop where
  | root : root ≠ emptyTrieHash → Reachable trie root root
  | child {h c : Hash} {data : Bytes} {cs : List Hash} : Reachable trie root h →
      (h, data) ∈ trie → children σ h data = .ok cs → c ∈ cs → c ≠ emptyTrieHash →
      Reachable trie root c

/-- The report tells what was committed and what is still missing. -/
structure Reported (p : SyncProgress) (d : StateDownload) : Prop where
  stateNodes : p.stateNodes = d.committed
  pendingStateNodes : p.pendingStateNodes = d.pending

theorem reported_report (d : StateDownload) (p : SyncProgress) : Reported (d.report p) d :=
  ⟨rfl, rfl⟩

theorem Reported.moved {p : SyncProgress} {d d' : StateDownload} (h : Reported p d)
    (m : Moved d d') : Reported p d' :=
  ⟨h.stateNodes.trans m.committed.symm, h.pendingStateNodes.trans m.pending.symm⟩

variable {k : Scope σ} {t : Desk (Recorder σ) StateDownload} {m : Move}

omit [LawfulNodeStore σ] in
/-- Only an answer that nobody waits for is stale, and it changes nothing. -/
theorem eq_of_stale {d d' : StateDownload} {r r' : Recorder σ} {id : RequestId} {peer : PeerId}
    {nodes : List Bytes} {n : Nat} (h : d.deliver r id peer nodes = (d', r', .ok (.stale n))) :
    d' = d := by
  unfold deliver at h
  split at h
  · cases h
    rfl
  · simp only at h
    split at h
    · cases h
    · simp only [Prod.mk.injEq, Except.ok.injEq] at h
      obtain ⟨-, -, h⟩ := h
      split at h <;> cases h

theorem reported_apply (h : Sound k [] t.board.store t.task)
    (rep : Reported t.board.progress t.task) (ok : (t.apply m).error = none) :
    Reported (t.apply m).board.progress (t.apply m).task := by
  cases m with
  | reserve peer capacity live =>
    simp only [Desk.apply]
    split
    · exact rep
    · rename_i hr
      exact rep.moved (placed_reserve h.placed hr).2
  | deliver id peer payload =>
    simp only [Desk.apply, Receiver.deliver] at ok ⊢
    cases hd : t.task.deliver t.board.store id peer payload.nodesOf with
    | mk d₁ x =>
      obtain ⟨r₁, outcome⟩ := x
      rw [hd] at ok
      cases outcome with
      | error err => simp at ok
      | ok delivery =>
        cases delivery with
        | stale n =>
          obtain rfl := eq_of_stale hd
          exact rep
        | accepted n => exact reported_report ..
        | disputed n reason => exact reported_report ..
        | rejected n dropped reason => exact reported_report ..
  | fail id => exact rep.moved (placed_fail h.placed id).2
  | failPeer peer => exact rep.moved (placed_failPeer h.placed peer).2

theorem reported_run {moves : List Move} (h : Sound k [] t.board.store t.task)
    (sent : ∀ b ∈ receivedNodes moves, k.sent b) (rep : Reported t.board.progress t.task)
    (ok : (t.run moves).error = none) :
    Reported (t.run moves).board.progress (t.run moves).task :=
  (Desk.run_ok_invariant
    (P := fun t => Sound k [] t.board.store t.task ∧ Reported t.board.progress t.task) ⟨h, rep⟩
    (fun _ m hm ht hok =>
      ⟨(sound_apply ht.1 fun b hb => sent b (mem_receivedNodes.mpr ⟨m, hm, hb⟩)).2 hok,
        reported_apply ht.1 ht.2 hok⟩) ok).2

/-- Once nothing is unfinished, everything reachable is stored. -/
theorem Sound.stored_of_reachable {r : Recorder σ} {d : StateDownload} (h : Sound k [] r d)
    (closed : Closed k.origin) (done : d.isDone) {trie : Set (Hash × Bytes)} (collisionFree : Set.InjOn Prod.fst trie)
    (sub : nodes r.store ⊆ trie) {c : Hash} (hc : Reachable σ trie k.root c) :
    Stored r.store c := by
  simp only [isDone, pending, Bool.and_eq_true, beq_iff_eq, Nat.add_eq_zero_iff,
    List.length_eq_zero_iff, List.isEmpty_iff] at done
  obtain ⟨⟨hs, hw⟩, hb⟩ := done
  induction hc with
  | root hne =>
    rcases h.kept.tracked.missing.root hne with (hk | hk) | hk
    · simp [hb] at hk
    · exact hk
    · simp [unfinished, hs, hw] at hk
  | child hreach hmem hcs hc hne ih =>
    obtain ⟨data', hdata⟩ := ih
    have hsame := collisionFree hmem (sub hdata) rfl
    rw [← hsame] at hdata
    exact (h.kept.logged.safe closed).closed _ hdata _ hcs _ hc hne

/-- A download that has reached its end has stored what the root leads to, each missing node once
and no other, provided that no two nodes it came across share a digest. -/
theorem done_adds_what_was_missing {t : Desk σ StateDownload} (closed : Closed t.board.store)
    {root : Hash} {session commitBatch : Nat}
    (opened : start session root t.board.store commitBatch = .ok t.task)
    (reported : Reported t.board.progress t.task) (moves : List Move)
    (running : (t.run moves).error = none) (done : (t.run moves).task.isDone)
    {trie : Set (Hash × Bytes)} (collisionFree : Set.InjOn Prod.fst trie)
    (stored : nodes t.board.store ⊆ trie)
    (sent : ∀ data ∈ receivedNodes moves, (keccak data, data) ∈ trie)
    (irreflexive : ∀ data ∈ receivedNodes moves,
      ∀ cs, children σ (keccak data) data = .ok cs → keccak data ∉ cs) :
    let b := (t.run moves).board
    let added := (commits t moves).flatMap Prod.snd
    (∀ h, Reachable σ trie root h → Stored b.store h) ∧
      nodes b.store = nodes t.board.store ∪ {e | e ∈ added} ∧ (added.map Prod.fst).Nodup ∧
      (∀ h, h ∈ added.map Prod.fst ↔ Reachable σ trie root h ∧ ¬ Stored t.board.store h) ∧
      b.progress.stateNodes = added.length ∧ b.progress.pendingStateNodes = 0 := by
  intro b added
  let k : Scope σ :=
    { origin := t.board.store
      root
      sent := (· ∈ receivedNodes moves)
      wanted := Reachable σ trie root
      descends := fun data hd hw cs hcs c hc hne => hw.child (sent data hd) hcs hc hne
      irreflexive }
  have hrun : Sound k [] ((record t).run moves).board.store (t.run moves).task ∧
      Reported b.progress (t.run moves).task := by
    have heq := run_record t moves
    have hstart : Sound k [] (record t).board.store (record t).task :=
      sound_start (k := k) .root opened
    have hrunning : ((record t).run moves).error = none :=
      (error_run_record t moves).trans running
    have hsound := sound_run hstart (fun b hb => hb) hrunning
    have hreported := reported_run hstart (fun b hb => hb) reported hrunning
    simp only [b, ← heq]
    exact ⟨hsound, hreported⟩
  obtain ⟨hsound, hreported⟩ := hrun
  have hlog := hsound.kept.logged
  have hstore : ((record t).run moves).board.store.store = b.store := store_run_record t moves
  have hdone := done
  simp only [isDone, Bool.and_eq_true, beq_iff_eq, List.isEmpty_iff] at hdone
  obtain ⟨hpending, hbatch⟩ := hdone
  have hnodes : nodes b.store = nodes t.board.store ∪ {e | e ∈ added} := hstore ▸ hlog.stored
  have hentries := hlog.entries
  have honce := hlog.once
  have hcommitted := hlog.committed
  rw [hbatch, List.append_nil] at hentries honce hcommitted
  have hsub : nodes b.store ⊆ trie := by
    intro e he
    rw [hnodes] at he
    rcases he with he | he
    · exact stored he
    · obtain ⟨⟨hdigest, hsent⟩, -⟩ := hentries e he
      have hin := sent e.2 hsent
      rwa [hdigest] at hin
  have hall : ∀ h, Reachable σ trie root h → Stored b.store h := fun h hr =>
    hstore ▸ hsound.stored_of_reachable closed done collisionFree (hstore ▸ hsub) hr
  refine ⟨hall, hnodes, honce, fun h => ⟨fun hh => ?_, ?_⟩,
    hreported.stateNodes.trans hcommitted, hreported.pendingStateNodes.trans hpending⟩
  · obtain ⟨e, he, rfl⟩ := List.mem_map.mp hh
    exact (hentries e he).2
  · rintro ⟨hr, hn⟩
    obtain ⟨data, hdata⟩ := hall h hr
    rw [hnodes] at hdata
    rcases hdata with hdata | hdata
    · exact absurd ⟨data, hdata⟩ hn
    · exact List.mem_map.mpr ⟨(h, data), hdata, rfl⟩

theorem done_adds_what_was_missing_repeated_child :
    let leaf : Bytes := Simulation.encodeNode [] [1]
    let top : Bytes := Simulation.encodeNode [keccak leaf, keccak leaf] [2]
    let trie : Set (Hash × Bytes) := {e | e ∈ [(keccak top, top), (keccak leaf, leaf)]}
    let task : StateDownload :=
      { root := keccak top, session := 7, nextAttempt := 0, queue := [keccak top],
        scheduled := [(keccak top, [])], inFlight := [], waiting := [], parents := [],
        membatch := [], membatchHashes := [], commitBatch := 1, committed := 0 }
    let t : Desk MemoryStore StateDownload := ⟨task, ⟨task.report {}, ⟨[]⟩⟩, none⟩
    let moves : List Move := [.reserve 1 8 [1], .deliver ⟨7, 0⟩ 1 (.nodes [top]),
      .reserve 1 8 [1], .deliver ⟨7, 1⟩ 1 (.nodes [leaf])]
    (t.run moves).task.isDone = true ∧ (t.run moves).board.progress.stateNodes = 2 ∧
      ∀ h, Reachable MemoryStore trie (keccak top) h → Stored (t.run moves).board.store h := by
  intro leaf top trie task t moves
  have hroot : keccak top ≠ emptyTrieHash := by decide +kernel
  have opened : start 7 (keccak top) t.board.store 1 = .ok task := by
    rw [start, if_neg hroot]
    rfl
  have run : (t.run moves).error = none ∧ (t.run moves).task.isDone = true ∧
      (t.run moves).board.progress.stateNodes = 2 := by decide +kernel
  have distinct : keccak top ≠ keccak leaf := by decide +kernel
  have collisionFree : Set.InjOn Prod.fst trie := by
    intro e he e' he' heq
    simp only [trie, Set.mem_ofPred_eq, List.mem_cons, List.not_mem_nil, or_false] at he he'
    rcases he with rfl | rfl <;> rcases he' with rfl | rfl
    · rfl
    · exact absurd heq distinct
    · exact absurd heq.symm distinct
    · rfl
  have sent : ∀ data ∈ [top, leaf], (keccak data, data) ∈ trie := by simp [trie]
  have irreflexive : ∀ data ∈ [top, leaf], ∀ cs ∈ Simulation.decodeChildren? data,
      keccak data ∉ cs := by decide +kernel
  have added := done_adds_what_was_missing (t := t) (by simp [t, Closed, nodes]) opened ⟨rfl, rfl⟩
    moves run.1 run.2.1 collisionFree (by simp [t, nodes]) sent fun data hd cs hcs =>
      irreflexive data hd cs (MemoryStore.decode_of_children hcs)
  exact ⟨run.2.1, run.2.2, added.1⟩

end ChainSync.StateDownload
