import ChainSync.Proofs.State.Process
import ChainSync.Proofs.State.Recording
import ChainSync.Proofs.State.Requests
set_option autoImplicit false

/-!
The state download as a whole: whatever is asked for and answered, the database only ever gets
complete subtries.
-/

namespace ChainSync.StateDownload

open Fetch LawfulNodeStore

variable {σ : Type} [NodeStore σ] [LawfulNodeStore σ]
variable {k : Scope σ} {r r' : Recorder σ} {d d' : StateDownload} {held : List Hash}

theorem Kept.moved {hand : List Hash} (h : Kept k hand r d) (m : Moved d d') :
    Kept k hand r d' := by
  refine ⟨h.tracked.congr (fun c => ?_) m.scheduled m.waiting m.parents, h.logged.safe, ?_,
    ?_, h.logged.stored, ?_, ?_, ?_⟩
  · rw [Known, Known, m.membatch]
  · rw [m.membatch, m.membatchHashes]
    exact h.logged.hashes
  · rw [m.membatch]
    exact h.logged.batch
  · rw [m.membatch]
    exact h.logged.entries
  · rw [m.membatch]
    exact h.logged.once
  · rw [m.membatch, m.committed]
    exact h.logged.committed

/-- A download between two steps. `held` are the hashes of the answer that is being taken in. -/
structure Sound (k : Scope σ) (held : List Hash) (r : Recorder σ) (d : StateDownload) : Prop where
  kept : Kept k [] r d
  placed : Placed held d
  /-- Nothing is left in the batch once there is nothing more to wait for. -/
  flushed : d.pending = 0 → d.membatch = []

theorem Sound.moved (h : Sound k held r d) {held' : List Hash} (placed : Placed held' d')
    (m : Moved d d') : Sound k held' r d' :=
  ⟨h.kept.moved m, placed, fun hz => m.membatch.trans (h.flushed (m.pending.symm.trans hz))⟩

/-- A hash that is answered leaves the schedule and is in hand. -/
theorem Sound.answer (h : Sound k held r d) {hash : Hash} (hm : hash ∈ held) :
    Kept k [hash] r { d with scheduled := d.scheduled.filter (·.1 != hash) } ∧
      Placed (held.filter (· != hash))
        { d with scheduled := d.scheduled.filter (·.1 != hash) } := by
  have hscheduled := h.placed.mem_scheduled (List.mem_append_right _ hm)
  obtain ⟨entry, hentry, heq⟩ := List.mem_map.mp hscheduled
  obtain ⟨c, failedBy⟩ := entry
  obtain rfl : c = hash := heq
  have hperm := (Keyed.perm_cons_filter h.placed.nodup hentry).map Prod.fst
  rw [List.map_cons] at hperm
  have w := h.kept.tracked.waits
  have l := h.kept.logged
  refine ⟨⟨⟨?_, w.positive, w.count, w.owner, w.nodup, w.node, w.children⟩,
    ⟨l.safe, l.hashes, l.batch, l.stored, l.entries, l.once, l.committed⟩⟩, h.placed.answer hm⟩
  refine (h.kept.tracked.missing.perm ?_).congr rfl rfl
  simp only [unfinished, List.append_nil]
  exact (hperm.append_right _).trans (List.perm_append_singleton ..).symm

/-- An answer to a request takes the request out. -/
theorem Sound.take {id : RequestId} {peer : PeerId} {hashes : List Hash} (h : Sound k [] r d)
    (hl : d.inFlight.lookup id = some (peer, hashes)) :
    Sound k hashes r { d with inFlight := d.inFlight.filter (·.1 != id) } :=
  h.moved (List.append_nil hashes ▸ h.placed.take hl) ⟨rfl, rfl, rfl, rfl, rfl, rfl⟩

theorem Sound.process {data : Bytes} {res : Except StoreError Unit} (h : Sound k held r d)
    (sent : k.sent data) (hm : keccak data ∈ held)
    (hp : StateDownload.process { d with scheduled := d.scheduled.filter (·.1 != keccak data) } r
      (keccak data) data = (d', r', res)) :
    k.Safe r' ∧ (res = .ok () → Sound k (held.filter (· != keccak data)) r' d') := by
  obtain ⟨kept, placed⟩ := h.answer hm
  have node : k.Node (keccak data, data) := ⟨rfl, sent⟩
  obtain ⟨safe, hok⟩ := process_spec kept node hp
  refine ⟨safe, fun hres => ?_⟩
  obtain ⟨kept', flushed⟩ := hok hres
  have grown := grown_process { d with scheduled := d.scheduled.filter (·.1 != keccak data) } r
    (keccak data) data
  rw [hp] at grown
  exact ⟨kept', placed.grown grown, flushed⟩

theorem takeIn_spec (h : Sound k held r d) {nodes : List Bytes} (sent : ∀ b ∈ nodes, k.sent b)
    {accepted unrequested : Nat} {res : Except StoreError (List Hash × Nat × Nat)}
    (ht : d.takeIn r held accepted unrequested nodes = (d', r', res)) :
    k.Safe r' ∧ ∀ outstanding counts, res = .ok (outstanding, counts) →
      Sound k outstanding r' d' := by
  induction nodes generalizing d r held accepted unrequested with
  | nil =>
    cases ht
    refine ⟨h.kept.logged.safe, fun outstanding counts hok => ?_⟩
    cases hok
    exact h
  | cons data rest ih =>
    have hrest : ∀ b ∈ rest, k.sent b := fun b hb => sent b (List.mem_cons_of_mem _ hb)
    simp only [takeIn] at ht
    split at ht
    · rename_i hm
      rw [List.contains_iff_mem] at hm
      cases hp : StateDownload.process
          { d with scheduled := d.scheduled.filter (·.1 != keccak data) } r (keccak data) data with
      | mk d₁ x =>
        obtain ⟨r₁, outcome⟩ := x
        rw [hp] at ht
        obtain ⟨safe, hok⟩ := h.process (sent data (List.mem_cons_self ..)) hm hp
        cases outcome with
        | error err =>
          cases ht
          exact ⟨safe, fun outstanding counts hc => by cases hc⟩
        | ok u => exact ih (hok rfl) hrest ht
    · exact ih h hrest ht

theorem deliver_spec (h : Sound k [] r d) (id : RequestId) (peer : PeerId) {nodes : List Bytes}
    (sent : ∀ b ∈ nodes, k.sent b) {res : Except SyncError Delivery}
    (hd : d.deliver r id peer nodes = (d', r', res)) :
    k.Safe r' ∧ ∀ delivery, res = .ok delivery → Sound k [] r' d' := by
  obtain ⟨-, placed⟩ := placed_deliver h.placed hd
  unfold deliver at hd
  cases hl : d.inFlight.lookup id with
  | none =>
    rw [hl] at hd
    cases hd
    exact ⟨h.kept.logged.safe, fun _ _ => h⟩
  | some request =>
    obtain ⟨owner, requested⟩ := request
    rw [hl] at hd
    simp only at hd
    cases ht : takeIn { d with inFlight := d.inFlight.filter (·.1 != id) } r requested 0 0
        nodes with
    | mk d₁ x =>
      obtain ⟨r₁, outcome⟩ := x
      rw [ht] at hd
      obtain ⟨safe, hok⟩ := takeIn_spec (h.take hl) sent ht
      cases outcome with
      | error err =>
        cases hd
        exact ⟨safe, fun _ hc => by cases hc⟩
      | ok counts =>
        cases hd
        exact ⟨safe, fun delivery hres =>
          (hok _ _ rfl).moved (placed delivery hres) (moved_requeueAll ..)⟩

omit [LawfulNodeStore σ] in
theorem start_blank {session commitBatch : Nat} {root : Hash} {store : Recorder σ}
    (hs : start session root store commitBatch = .ok d) :
    d.waiting = [] ∧ d.parents = [] ∧ d.membatch = [] ∧ d.membatchHashes = [] ∧
      d.committed = 0 := by
  unfold start at hs
  split at hs
  · cases hs
    exact ⟨rfl, rfl, rfl, rfl, rfl⟩
  · split at hs <;> cases hs <;> exact ⟨rfl, rfl, rfl, rfl, rfl⟩

/-- Only the root can be scheduled at the start, if it is missing. -/
theorem start_scheduled {session commitBatch : Nat} {root : Hash} {store : Recorder σ}
    (hs : start session root store commitBatch = .ok d) :
    d.scheduled = [] ∧ (root ≠ emptyTrieHash → Stored store.store root) ∨
      d.scheduled = [(root, [])] ∧ root ≠ emptyTrieHash ∧ ¬ Stored store.store root := by
  unfold start at hs
  split at hs
  · rename_i hroot
    cases hs
    exact .inl ⟨rfl, fun hne => absurd hroot hne⟩
  · rename_i hroot
    split at hs
    · simp at hs
    · rename_i hhas
      cases hs
      have hhas : NodeStore.hasNode store.store root = .ok true := hhas
      exact .inl ⟨rfl, fun _ => (hasNode_iff hhas).mp rfl⟩
    · rename_i hhas
      cases hs
      have hhas : NodeStore.hasNode store.store root = .ok false := hhas
      exact .inr ⟨rfl, hroot, (hasNode_iff hhas).not.mp (by simp)⟩

theorem sound_start {session commitBatch : Nat}
    (wanted : k.root ≠ emptyTrieHash → k.wanted k.root)
    (hs : start session k.root (⟨k.origin, []⟩ : Recorder σ) commitBatch = .ok d) :
    Sound k [] ⟨k.origin, []⟩ d := by
  obtain ⟨hwaiting, hparents, hbatch, hhashes, hcommitted⟩ := start_blank hs
  have hknown : ∀ h, Known k.origin d h ↔ Stored k.origin h := by simp [Known, hbatch]
  have logged : Logged k ⟨k.origin, []⟩ d := by
    refine ⟨fun closed => ⟨closed, by simp⟩, ?_, ?_, ?_, ?_, ?_, ?_⟩ <;>
      simp [hbatch, hhashes, hcommitted, Recorder.log, ordered_nil]
  have waits : Waits k k.origin [] d := by
    refine ⟨?_, ?_, ?_, ?_, ?_, ?_⟩ <;> simp [hwaiting, hparents, links]
  have unfinished_eq : d.unfinished ++ [] = d.scheduled.map Prod.fst := by
    simp [unfinished, hwaiting]
  refine ⟨⟨⟨?_, waits⟩, logged⟩, placed_start hs, fun _ => hbatch⟩
  rw [unfinished_eq]
  rcases start_scheduled hs with ⟨hscheduled, hstored⟩ | ⟨hscheduled, hne, hmissing⟩
  · exact ⟨by simp [hscheduled], by simp [hscheduled], by simp [hscheduled],
      fun hne => .inl ((hknown _).mpr (hstored hne)), by simp [hparents]⟩
  · refine ⟨by simp [hscheduled], fun h hh => ?_, fun h hh => ?_,
      fun _ => .inr (by simp [hscheduled]), by simp [hparents]⟩ <;>
      obtain rfl : h = k.root := by simpa [hscheduled] using hh
    · exact (hknown _).not.mpr hmissing
    · exact wanted hne

/-- All node data that peers sent, asked for or not. -/
def receivedNodes (moves : List Move) : List Bytes := (received moves).flatMap Payload.nodesOf

section Moves

variable {t : Desk (Recorder σ) StateDownload} {m : Move}

theorem sound_apply (h : Sound k [] t.board.store t.task)
    (sent : ∀ b ∈ receivedNodes [m], k.sent b) :
    k.Safe (t.apply m).board.store ∧
      ((t.apply m).error = none → Sound k [] (t.apply m).board.store (t.apply m).task) := by
  have unmoved : k.Safe t.board.store := h.kept.logged.safe
  cases m with
  | reserve peer capacity live =>
    simp only [Desk.apply]
    split
    · exact ⟨unmoved, fun _ => h⟩
    · rename_i hr
      obtain ⟨placed, moved⟩ := placed_reserve h.placed hr
      exact ⟨unmoved, fun _ => h.moved placed moved⟩
  | deliver id peer payload =>
    have hsent : ∀ b ∈ payload.nodesOf, k.sent b := by
      simpa [receivedNodes, received, Move.payload?] using sent
    simp only [Desk.apply, Receiver.deliver]
    cases hd : t.task.deliver t.board.store id peer payload.nodesOf with
    | mk d₁ x =>
      obtain ⟨r₁, outcome⟩ := x
      obtain ⟨safe, hok⟩ := deliver_spec h id peer hsent hd
      cases outcome with
      | error err => exact ⟨safe, fun herr => by simp at herr⟩
      | ok delivery => exact ⟨safe, fun _ => hok delivery rfl⟩
  | fail id =>
    obtain ⟨placed, moved⟩ := placed_fail h.placed id
    exact ⟨unmoved, fun _ => h.moved placed moved⟩
  | failPeer peer =>
    obtain ⟨placed, moved⟩ := placed_failPeer h.placed peer
    exact ⟨unmoved, fun _ => h.moved placed moved⟩

theorem mem_receivedNodes {moves : List Move} {b : Bytes} :
    b ∈ receivedNodes moves ↔ ∃ m ∈ moves, b ∈ receivedNodes [m] := by
  simp only [receivedNodes, received, List.mem_flatMap, List.mem_filterMap, List.mem_singleton]
  constructor
  · rintro ⟨p, ⟨m, hm, hp⟩, hb⟩
    exact ⟨m, hm, p, ⟨m, rfl, hp⟩, hb⟩
  · rintro ⟨m, hm, p, ⟨_, rfl, hp⟩, hb⟩
    exact ⟨p, ⟨_, hm, hp⟩, hb⟩

theorem sound_run {moves : List Move} (h : Sound k [] t.board.store t.task)
    (sent : ∀ b ∈ receivedNodes moves, k.sent b) (ok : (t.run moves).error = none) :
    Sound k [] (t.run moves).board.store (t.run moves).task :=
  Desk.run_ok_invariant (P := fun t => Sound k [] t.board.store t.task) h
    (fun _ m hm ht => (sound_apply ht fun b hb => sent b (mem_receivedNodes.mpr ⟨m, hm, hb⟩)).2) ok

end Moves

/-- Whatever peers send, nodes are committed behind their children and under their own digests, so
that the database is closed at every moment: after each call, the one that ends the download
included, and in the middle of a commit. -/
theorem commits_keep_the_database_closed {t : Desk σ StateDownload}
    (closed : Closed t.board.store) {root : Hash} {session commitBatch : Nat}
    (opened : start session root t.board.store commitBatch = .ok t.task) (moves : List Move)
    (last : Move) (running : (t.run moves).error = none)
    (irreflexive : ∀ data ∈ receivedNodes (moves ++ [last]),
      ∀ cs, children σ (keccak data) data = .ok cs → keccak data ∉ cs) :
    Closed (t.run (moves ++ [last])).board.store ∧
      ∀ g ∈ commits t (moves ++ [last]), Ordered g.1 g.2 ∧
        ∀ stored, stored <+: g.2 → ∀ s : σ, nodes s = nodes g.1 ∪ {e | e ∈ stored} → Closed s := by
  let k : Scope σ :=
    { origin := t.board.store
      root
      sent := (· ∈ receivedNodes (moves ++ [last]))
      wanted := fun _ => True
      descends := fun _ _ _ _ _ _ _ _ => trivial
      irreflexive }
  have sent : ∀ m ∈ moves ++ [last], ∀ b ∈ receivedNodes [m], k.sent b :=
    fun m hm b hb => mem_receivedNodes.mpr ⟨m, hm, hb⟩
  have hstart : Sound k [] (record t).board.store (record t).task :=
    sound_start (k := k) (fun _ => trivial) opened
  have hrunning : ((record t).run moves).error = none := (error_run_record t moves).trans running
  have hrun := sound_run hstart
    (fun b hb => by
      obtain ⟨m, hm, hb⟩ := mem_receivedNodes.mp hb
      exact sent m (List.mem_append_left _ hm) b hb) hrunning
  have safe : ((record t).run (moves ++ [last])).board.store.Safe := by
    rw [Desk.run_concat]
    exact (sound_apply hrun (sent last (by simp))).1 closed
  refine ⟨store_run_record t _ ▸ safe.closed, fun g hg => ?_⟩
  obtain ⟨hclosed, hordered⟩ := safe.given g hg
  exact ⟨hordered, fun stored hp s hs => (hordered.initial hp).closed hclosed hs⟩

theorem commits_keep_the_database_closed_two_levels :
    let leaf : Bytes := Simulation.encodeNode [] [1]
    let top : Bytes := Simulation.encodeNode [keccak leaf] [2]
    let task : StateDownload :=
      { root := keccak top, session := 7, nextAttempt := 0, queue := [keccak top],
        scheduled := [(keccak top, [])], inFlight := [], waiting := [], parents := [],
        membatch := [], membatchHashes := [], commitBatch := 16, committed := 0 }
    let t : Desk MemoryStore StateDownload := ⟨task, ⟨{}, ⟨[]⟩⟩, none⟩
    let moves : List Move := [.reserve 1 8 [1], .deliver ⟨7, 0⟩ 1 (.nodes [top]), .reserve 1 8 [1]]
    let last : Move := .deliver ⟨7, 1⟩ 1 (.nodes [leaf])
    (commits t (moves ++ [last])).map (·.2) = [[(keccak leaf, leaf), (keccak top, top)]] ∧
      Closed (t.run (moves ++ [last])).board.store := by
  intro leaf top task t moves last
  have hroot : keccak top ≠ emptyTrieHash := by decide +kernel
  have opened : start 7 (keccak top) t.board.store 16 = .ok task := by
    rw [start, if_neg hroot]
    rfl
  have run : (t.run moves).error = none ∧ (commits t (moves ++ [last])).map (·.2) =
      [[(keccak leaf, leaf), (keccak top, top)]] := by decide +kernel
  have irreflexive : ∀ data ∈ [top, leaf], ∀ cs ∈ Simulation.decodeChildren? data,
      keccak data ∉ cs := by decide +kernel
  have kept := commits_keep_the_database_closed (t := t) (by simp [t, Closed, nodes]) opened moves
    last run.1 fun data hd cs hcs =>
      irreflexive data hd cs (MemoryStore.decode_of_children hcs)
  exact ⟨run.2, kept.1⟩

end ChainSync.StateDownload
