import ChainSync.Proofs.State.Descent
set_option autoImplicit false

/-!
The books of a download balance: what is scheduled is in one place, what waits is owed as often as
it counts, and no counter is lowered below zero.
-/

namespace ChainSync.StateDownload

open Fetch LawfulNodeStore

section Lowered

variable {σ : Type} [NodeStore σ]

/-- The counters of missing children that are lowered when these nodes are told of a child, each as
it stands before. -/
def loweredBySettling (d : StateDownload) : List Hash → List Nat
  | [] => []
  | parent :: rest =>
    ((d.waiting.lookup parent).map (·.missingChildren)).toList ++
      (d.settleParent parent).1.loweredBySettling rest

def loweredByCascade (d : StateDownload) : Nat → List (Hash × Bytes) → List Nat
  | 0, _ => []
  | fuel + 1, ready =>
    match ready.getLast? with
    | none => []
    | some e =>
      (d.finish e).loweredBySettling (d.parentsOf e.1) ++
        ((d.finish e).settleParents (d.parentsOf e.1)).1.loweredByCascade fuel
          (ready.dropLast ++ ((d.finish e).settleParents (d.parentsOf e.1)).2)

/-- Only a node that lacks nothing is committed. -/
def loweredByNode (d : StateDownload) (store : σ) (hash : Hash) (data : Bytes) : List Nat :=
  match NodeStore.childHashes store hash data with
  | .error _ => []
  | .ok children =>
    match d.link store hash children with
    | (d, .ok 0) => d.loweredByCascade (d.waiting.length + 1) [(hash, data)]
    | _ => []

def loweredByNodes (d : StateDownload) (store : σ) (outstanding : List Hash) :
    List Bytes → List Nat
  | [] => []
  | data :: rest =>
    let hash := keccak data
    if outstanding.contains hash then
      let d := { d with scheduled := d.scheduled.filter (·.1 != hash) }
      d.loweredByNode store hash data ++
        match d.process store hash data with
        | (_, _, .error _) => []
        | (d, store, .ok ()) =>
          d.loweredByNodes store (outstanding.filter (· != hash)) rest
    else d.loweredByNodes store outstanding rest

/-- The counters that a call lowers. Only answers that are still waited for lower any. -/
def lowered (t : Desk σ StateDownload) : Move → List Nat
  | .deliver id _ payload =>
    match t.task.inFlight.lookup id with
    | none => []
    | some (_, requested) =>
      { t.task with inFlight := t.task.inFlight.filter (·.1 != id) }.loweredByNodes
        t.board.store requested payload.nodesOf
  | _ => []

theorem loweredByNode_recorder (d : StateDownload) (r : Recorder σ) (h : Hash) (data : Bytes) :
    d.loweredByNode r h data = d.loweredByNode r.store h data := by
  have hchildren : NodeStore.childHashes r h data = NodeStore.childHashes r.store h data := rfl
  simp only [loweredByNode, hchildren, link_recorder]

theorem loweredByNodes_recorder (d : StateDownload) (r : Recorder σ) (outstanding : List Hash)
    (nodes : List Bytes) :
    d.loweredByNodes r outstanding nodes = d.loweredByNodes r.store outstanding nodes := by
  induction nodes generalizing d r outstanding with
  | nil => rfl
  | cons data rest ih =>
    simp only [loweredByNodes, loweredByNode_recorder]
    split
    · rw [← forget_process]
      generalize process _ r _ _ = x
      obtain ⟨d', r', outcome⟩ := x
      cases outcome with
      | error err => rfl
      | ok u => exact congrArg _ (ih ..)
    · exact ih ..

theorem lowered_forgetRecord (t : Desk (Recorder σ) StateDownload) (m : Move) :
    lowered (forgetRecord t) m = lowered t m := by
  cases m with
  | deliver id peer payload =>
    simp only [lowered, forgetRecord]
    split
    · rfl
    · exact (loweredByNodes_recorder ..).symm
  | _ => rfl

theorem history_lowered_record (t : Desk σ StateDownload) (moves : List Move) :
    Desk.history lowered (record t) moves = Desk.history lowered t moves := by
  have forgotten : ∀ t : Desk (Recorder σ) StateDownload,
      Desk.history lowered (forgetRecord t) moves = Desk.history lowered t moves := by
    induction moves with
    | nil => exact fun _ => rfl
    | cons m moves ih =>
      intro t
      rw [Desk.history, Desk.history, lowered_forgetRecord, ← forgetRecord_apply, ih]
  exact (forgotten (record t)).symm

end Lowered

variable {σ : Type} [NodeStore σ] [LawfulNodeStore σ]
variable {k : Scope σ} {r : Recorder σ} {d : StateDownload} {held : List Hash}

theorem pos_of_settling {s : σ} {hand owed : List Hash} (h : Tracked k hand owed s d) :
    ∀ n ∈ d.loweredBySettling owed, 0 < n := by
  induction owed generalizing d hand with
  | nil => simp [loweredBySettling]
  | cons p owed ih =>
    intro n hn
    rcases List.mem_append.mp hn with hn | hn
    · obtain ⟨node, hnode, rfl⟩ := Option.map_eq_some_iff.mp (Option.mem_toList.mp hn)
      exact h.waits.positive (p, node) (Keyed.mem_of_lookup hnode)
    · exact ih (tracked_settleParent h).1 n hn

theorem pos_of_cascade {fuel : Nat} {ready : List (Hash × Bytes)} (h : Cascading k r fuel ready d) :
    ∀ n ∈ d.loweredByCascade fuel ready, 0 < n := by
  induction fuel generalizing d ready with
  | zero => simp [loweredByCascade]
  | succ fuel ih =>
    rcases List.eq_nil_or_concat ready with rfl | ⟨front, e, rfl⟩
    · simp [loweredByCascade]
    · rw [List.concat_eq_append] at h ⊢
      obtain ⟨finished, next⟩ := h.next rfl
      simp only [loweredByCascade, List.getLast?_append, List.getLast?_singleton, Option.some_or,
        List.dropLast_concat]
      intro n hn
      rcases List.mem_append.mp hn with hn | hn
      · exact pos_of_settling finished n hn
      · exact ih next n hn

theorem pos_of_node {e : Hash × Bytes} (h : Kept k [e.1] r d) (node : k.Node e) :
    ∀ n ∈ d.loweredByNode r e.1 e.2, 0 < n := by
  unfold loweredByNode
  split
  · simp
  · rename_i cs hcs
    have hcs : NodeStore.childHashes r.store e.1 e.2 = .ok cs := hcs
    rw [childHashes_eq] at hcs
    split
    · rename_i hl
      obtain ⟨rfl, ready⟩ := h.ready_of_link node hcs hl
      exact pos_of_cascade (h.cascading ready)
    · simp

theorem pos_of_nodes {nodes : List Bytes} (h : Sound k held r d) (sent : ∀ b ∈ nodes, k.sent b) :
    ∀ n ∈ d.loweredByNodes r held nodes, 0 < n := by
  induction nodes generalizing d r held with
  | nil => simp [loweredByNodes]
  | cons data rest ih =>
    have hrest : ∀ b ∈ rest, k.sent b := fun b hb => sent b (List.mem_cons_of_mem _ hb)
    simp only [loweredByNodes]
    split
    · rename_i hm
      rw [List.contains_iff_mem] at hm
      have hdata := sent data (List.mem_cons_self ..)
      intro n hn
      rcases List.mem_append.mp hn with hn | hn
      · exact pos_of_node (e := (keccak data, data)) (h.answer hm).1 ⟨rfl, hdata⟩ n hn
      · split at hn
        · simp at hn
        · rename_i hp
          exact ih ((h.process hdata hm hp).2 rfl) hrest n hn
    · exact ih h hrest

theorem pos_of_lowered {t : Desk (Recorder σ) StateDownload} {m : Move}
    (h : Sound k [] t.board.store t.task) (sent : ∀ b ∈ receivedNodes [m], k.sent b) :
    ∀ n ∈ lowered t m, 0 < n := by
  cases m with
  | deliver id peer payload =>
    have hsent : ∀ b ∈ payload.nodesOf, k.sent b := by
      simpa [receivedNodes, received, Move.payload?] using sent
    simp only [lowered]
    split
    · simp
    · rename_i hl
      exact pos_of_nodes (h.take hl) hsent
  | _ => simp [lowered]

theorem pos_of_history {t : Desk (Recorder σ) StateDownload} {moves : List Move}
    (h : Sound k [] t.board.store t.task) (sent : ∀ b ∈ receivedNodes moves, k.sent b)
    (ok : (t.run moves).error = none) : ∀ n ∈ Desk.history lowered t moves, 0 < n := by
  induction moves generalizing t with
  | nil => simp [Desk.history]
  | cons m moves ih =>
    have hm : ∀ b ∈ receivedNodes [m], k.sent b := fun b hb =>
      sent b (mem_receivedNodes.mpr ⟨m, List.mem_cons_self .., hb⟩)
    have hrest : ∀ b ∈ receivedNodes moves, k.sent b := by
      intro b hb
      obtain ⟨m', hm', hb⟩ := mem_receivedNodes.mp hb
      exact sent b (mem_receivedNodes.mpr ⟨m', List.mem_cons_of_mem _ hm', hb⟩)
    intro n hn
    rcases List.mem_append.mp hn with hn | hn
    · exact pos_of_lowered h hm n hn
    · exact ih ((sound_apply h hm).2 (Desk.error_of_run ok)) hrest ok n hn

/-- What can be read off a download between two calls. -/
structure Balanced (d : StateDownload) : Prop where
  /-- A scheduled hash is in the queue once or in one request once, and nothing else is there. -/
  placed : ∀ h, (d.queue ++ d.inFlight.flatMap (·.2.2)).count h =
    if h ∈ d.scheduled.map Prod.fst then 1 else 0
  /-- No hash is scheduled twice, waits twice, or is scheduled and waits. -/
  apart : (d.scheduled.map Prod.fst ++ d.waiting.map Prod.fst).Nodup
  positive : ∀ e ∈ d.waiting, 0 < e.2.missingChildren
  counted : ∀ e ∈ d.waiting, e.2.missingChildren =
    ((d.scheduled.map Prod.fst ++ d.waiting.map Prod.fst).flatMap d.parentsOf).count e.1
  /-- There is something to ask for as long as anything is missing. -/
  demanded : 0 < d.pending → d.scheduled ≠ []
  flushed : d.pending = 0 → d.membatch = [] ∧ d.membatchHashes = []
  done : d.isDone = true ↔ d.pending = 0

theorem Sound.balanced {child : Hash → Hash → Prop} (h : Sound k [] r d)
    (desc : Descends child d) (acyclic : ∀ h, ¬ Relation.TransGen child h h) : Balanced d := by
  have tracked := h.kept.tracked
  have missing := tracked.missing.nodup
  rw [List.append_nil] at missing
  refine ⟨fun c => ?_, missing, tracked.waits.positive, fun e he => ?_,
    exists_scheduled tracked desc acyclic, fun hz => ?_, ?_⟩
  · have hplaces := h.placed.places
    rw [List.append_nil] at hplaces
    rw [hplaces.count_eq, List.Nodup.count h.placed.nodup]
  · have hcount := tracked.waits.count e he
    rw [List.append_nil, tracked.links_perm.count_eq] at hcount
    exact hcount
  · have hbatch := h.flushed hz
    refine ⟨hbatch, List.eq_nil_iff_forall_not_mem.mpr fun c hc => ?_⟩
    simp [h.kept.logged.hashes, hbatch] at hc
  · simp only [isDone, Bool.and_eq_true, beq_iff_eq, List.isEmpty_iff, and_iff_left_iff_imp]
    exact h.flushed

/-- As long as the database answers, nothing that is missing is lost sight of, whatever is asked
for, answered, lost or left behind: something can be asked for until all is there. -/
theorem nothing_is_lost_or_miscounted {t : Desk σ StateDownload} {root : Hash}
    {session commitBatch : Nat}
    (opened : start session root t.board.store commitBatch = .ok t.task) (moves : List Move)
    (running : (t.run moves).error = none)
    (acyclic : ∀ h, ¬ Relation.TransGen (Child σ (· ∈ receivedNodes moves)) h h) :
    Balanced (t.run moves).task ∧ ∀ n ∈ Desk.history lowered t moves, 0 < n := by
  let k : Scope σ :=
    { origin := t.board.store
      root
      sent := (· ∈ receivedNodes moves)
      wanted := fun _ => True
      descends := fun _ _ _ _ _ _ _ _ => trivial
      irreflexive := fun data hd cs hcs hc => acyclic _ (.single ⟨data, hd, rfl, cs, hcs, hc⟩) }
  have hstart : Sound k [] (record t).board.store (record t).task :=
    sound_start (k := k) (fun _ => trivial) opened
  have hdesc : Descends (Child σ k.sent) (record t).task := descends_start opened
  have hrunning : ((record t).run moves).error = none := (error_run_record t moves).trans running
  have hsound := sound_run hstart (fun b hb => hb) hrunning
  have hdown := descends_run hstart hdesc (fun b hb => hb) hrunning
  refine ⟨?_, ?_⟩
  · have htask : ((record t).run moves).task = (t.run moves).task :=
      congrArg (·.task) (run_record t moves)
    rw [htask] at hsound hdown
    exact hsound.balanced hdown acyclic
  · rw [← history_lowered_record]
    exact pos_of_history hstart (fun b hb => hb) hrunning

theorem nothing_is_lost_or_miscounted_second_child :
    let leaf : Bytes := Simulation.encodeNode [] [1]
    let other : Bytes := Simulation.encodeNode [] [3]
    let top : Bytes := Simulation.encodeNode [keccak leaf, keccak other] [2]
    let task : StateDownload :=
      { root := keccak top, session := 7, nextAttempt := 0, queue := [keccak top],
        scheduled := [(keccak top, [])], inFlight := [], waiting := [], parents := [],
        membatch := [], membatchHashes := [], commitBatch := 16, committed := 0 }
    let t : Desk MemoryStore StateDownload := ⟨task, ⟨{}, ⟨[]⟩⟩, none⟩
    let moves : List Move := [.reserve 1 8 [1], .deliver ⟨7, 0⟩ 1 (.nodes [top]),
      .reserve 1 1 [1], .deliver ⟨7, 1⟩ 1 (.nodes [leaf])]
    (t.run moves).task.waiting = [(keccak top, ⟨top, 1⟩)] ∧
      (t.run moves).task.queue = [keccak other] ∧
      Desk.history lowered t moves = [2] ∧ Balanced (t.run moves).task := by
  intro leaf other top task t moves
  have hroot : keccak top ≠ emptyTrieHash := by decide +kernel
  have opened : start 7 (keccak top) t.board.store 16 = .ok task := by
    rw [start, if_neg hroot]
    rfl
  have run : (t.run moves).error = none ∧ (t.run moves).task.waiting = [(keccak top, ⟨top, 1⟩)] ∧
      (t.run moves).task.queue = [keccak other] ∧ Desk.history lowered t moves = [2] := by
    decide +kernel
  have decoded : Simulation.decodeChildren? top = some [keccak leaf, keccak other] ∧
      Simulation.decodeChildren? leaf = some [] := by decide +kernel
  have distinct : keccak leaf ≠ keccak top ∧ keccak other ≠ keccak top := by decide +kernel
  have sent : receivedNodes moves = [top, leaf] := rfl
  have edge : ∀ p c, Child MemoryStore (· ∈ receivedNodes moves) p c →
      p = keccak top ∧ c ≠ keccak top := by
    rintro p c ⟨data, hd, rfl, cs, hcs, hc⟩
    have hcs := MemoryStore.decode_of_children hcs
    rw [sent, List.mem_pair] at hd
    rcases hd with rfl | rfl
    · rw [decoded.1, Option.some_inj] at hcs
      rw [← hcs, List.mem_pair] at hc
      rcases hc with rfl | rfl
      · exact ⟨rfl, distinct.1⟩
      · exact ⟨rfl, distinct.2⟩
    · rw [decoded.2, Option.some_inj] at hcs
      exact absurd (hcs ▸ hc) List.not_mem_nil
  have balanced := nothing_is_lost_or_miscounted opened moves run.1 fun h cycle => by
    obtain ⟨_, first, -⟩ := Relation.TransGen.head'_iff.mp cycle
    obtain ⟨_, -, last⟩ := Relation.TransGen.tail'_iff.mp cycle
    exact (edge _ _ last).2 (edge _ _ first).1
  exact ⟨run.2.1, run.2.2.1, run.2.2.2, balanced.1⟩

end ChainSync.StateDownload
