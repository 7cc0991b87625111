import ChainSync.Proofs.Fetch.Allotment
import ChainSync.Proofs.Fetch.Desk
import ChainSync.Proofs.State.Requests
set_option autoImplicit false

/-!
Which hashes a download hands out, and to whom: the first of the queue that the peer may be asked
for, as many as it can take. The others keep their places, and no hash is lost. All of this rests on
every queued hash being scheduled and queued once, which each call keeps.
-/

namespace ChainSync.StateDownload

open Fetch

variable {d d' : StateDownload} {peer : PeerId} {live : List PeerId} {capacity : Nat}

/-- The peers that failed to serve a hash, as far as that was not forgiven since. -/
def failedBy (d : StateDownload) (hash : Hash) : List PeerId := (d.scheduled.lookup hash).getD []

/-- Whether a peer may be asked for a hash: it has not failed it, or every live peer has. -/
def Eligible (d : StateDownload) (peer : PeerId) (live : List PeerId) (hash : Hash) : Prop :=
  peer ∉ d.failedBy hash ∨ ∀ other ∈ live, other ∈ d.failedBy hash

/-- Hashes are handed out by the same rule as batches of blocks. -/
theorem eligible_eq (failedBy : List PeerId) (peer : PeerId) (live : List PeerId) :
    eligible failedBy peer live = Pending.eligible ⟨1, failedBy⟩ peer live := rfl

theorem eligible_iff {hash : Hash} :
    eligible (d.failedBy hash) peer live = true ↔ d.Eligible peer live hash := by
  rw [eligible_eq, Pending.eligible_iff, Eligible]

instance : DecidablePred (d.Eligible peer live) := fun _ => decidable_of_iff _ eligible_iff

section Pick

variable {queue : List Hash}

theorem eligible_of_lookup {hash : Hash} {failed : List PeerId}
    (h : d.scheduled.lookup hash = some failed) :
    eligible failed peer live = true ↔ d.Eligible peer live hash := by
  rw [← eligible_iff, failedBy, h, Option.getD_some]

/-- The search takes the first that are eligible, whatever it passes over in between. -/
theorem pick_fst (peer : PeerId) (live : List PeerId) (room : Nat)
    (scheduled : ∀ c ∈ queue, c ∈ d.scheduled.map Prod.fst) :
    (d.pick peer live room queue).1 = (queue.filter (d.Eligible peer live ·)).take room := by
  fun_induction pick d peer live room queue with
  | case1 queue => rfl
  | case2 => rw [List.filter_nil, List.take_nil]
  | case3 room c rest hl ih =>
    exact absurd (scheduled c (List.mem_cons_self ..)) (Keyed.lookup_eq_none_iff.mp hl)
  | case4 room c rest failed hl fit taken left heq ih =>
    have hrest := ih fun c' hc' => scheduled c' (List.mem_cons_of_mem _ hc')
    rw [heq] at hrest
    rw [eligible_of_lookup hl] at fit
    rw [List.filter_cons_of_pos (by simpa using fit), List.take_succ_cons, ← hrest]
  | case5 room c rest failed hl unfit taken left heq ih =>
    have hrest := ih fun c' hc' => scheduled c' (List.mem_cons_of_mem _ hc')
    rw [heq] at hrest
    rw [eligible_of_lookup hl] at unfit
    rw [List.filter_cons_of_neg (by simpa using unfit), ← hrest]

/-- What is passed over keeps its place. -/
theorem pick_snd (peer : PeerId) (live : List PeerId) (room : Nat)
    (scheduled : ∀ c ∈ queue, c ∈ d.scheduled.map Prod.fst) (nodup : queue.Nodup) :
    (d.pick peer live room queue).2 = queue.filter (· ∉ (d.pick peer live room queue).1) := by
  fun_induction pick d peer live room queue with
  | case1 queue => exact (List.filter_eq_self.mpr fun _ _ => by simp).symm
  | case2 => rfl
  | case3 room c rest hl ih =>
    exact absurd (scheduled c (List.mem_cons_self ..)) (Keyed.lookup_eq_none_iff.mp hl)
  | case4 room c rest failed hl fit taken left heq ih =>
    obtain ⟨single, nodup⟩ := List.nodup_cons.mp nodup
    have hrest := ih (fun c' hc' => scheduled c' (List.mem_cons_of_mem _ hc')) nodup
    rw [heq] at hrest
    rw [List.filter_cons_of_neg (by simp)]
    -- a second copy of the hash would be left in the queue, but would not pass the filter
    refine hrest.trans (List.filter_congr fun x hx => ?_)
    have other : x ≠ c := fun same => single (same ▸ hx)
    simp [other]
  | case5 room c rest failed hl unfit taken left heq ih =>
    obtain ⟨single, nodup⟩ := List.nodup_cons.mp nodup
    have hscheduled := fun c' hc' => scheduled c' (List.mem_cons_of_mem _ hc')
    have hrest := ih hscheduled nodup
    have hperm := pick_perm peer live (room + 1) rest hscheduled
    rw [heq] at hrest hperm
    have untaken : c ∉ taken := fun hc => single (hperm.subset (List.mem_append_left left hc))
    rw [List.filter_cons_of_pos (by simpa using untaken), ← hrest]

/-- A search that finds nothing leaves the queue as it was. -/
theorem pick_of_none (peer : PeerId) (live : List PeerId) (room : Nat)
    (scheduled : ∀ c ∈ queue, c ∈ d.scheduled.map Prod.fst) (nodup : queue.Nodup)
    (nothing : ∀ c ∈ queue, ¬ d.Eligible peer live c) :
    d.pick peer live room queue = ([], queue) := by
  have eligible : queue.filter (d.Eligible peer live ·) = [] :=
    List.filter_eq_nil_iff.mpr (by simpa using nothing)
  have first : (d.pick peer live room queue).1 = [] := by
    rw [pick_fst peer live room scheduled, eligible, List.take_nil]
  have rest := pick_snd peer live room scheduled nodup
  rw [first] at rest
  refine Prod.ext first (rest.trans (List.filter_eq_self.mpr fun c _ => ?_))
  exact decide_eq_true List.not_mem_nil

end Pick

theorem reserve_eq_none_iff (scheduled : ∀ c ∈ d.queue, c ∈ d.scheduled.map Prod.fst) :
    d.reserve peer capacity live = none ↔ ∀ hash ∈ d.queue, ¬ d.Eligible peer live hash := by
  have handed := pick_fst peer live (max capacity 1) scheduled
  have room : max capacity 1 ≠ 0 := by omega
  have none_eligible : (d.pick peer live (max capacity 1) d.queue).1.isEmpty ↔
      ∀ hash ∈ d.queue, ¬ d.Eligible peer live hash := by
    rw [List.isEmpty_iff, handed, List.take_eq_nil_iff, or_iff_right room, List.filter_eq_nil_iff]
    simp only [decide_eq_true_eq]
  unfold reserve
  dsimp only
  rw [← none_eligible]
  split
  · rename_i nothing
    exact iff_of_true rfl nothing
  · rename_i something
    exact iff_of_false nofun something

/-- Some live peer may be asked for it, as all may once everyone has failed it. -/
theorem exists_eligible (d : StateDownload) (hash : Hash) (someone : live ≠ []) :
    ∃ peer ∈ live, d.Eligible peer live hash := by
  obtain ⟨peer, hlive, fit⟩ := Queue.exists_eligible ⟨1, d.failedBy hash⟩ someone
  exact ⟨peer, hlive, eligible_iff.mp fit⟩

/-- What a reservation hands out, and what it leaves. -/
theorem reserve_eq_some (scheduled : ∀ c ∈ d.queue, c ∈ d.scheduled.map Prod.fst)
    (nodup : d.queue.Nodup) {a : Assignment}
    (handed : d.reserve peer capacity live = some (a, d')) :
    ∃ taken, taken = (d.queue.filter (d.Eligible peer live ·)).take (max capacity 1) ∧
      a = ⟨⟨d.session, d.nextAttempt⟩, ⟨d.committed, taken.length⟩, .nodes taken⟩ ∧
      d' = { d with
        nextAttempt := d.nextAttempt + 1
        queue := d.queue.filter (· ∉ taken)
        scheduled := d.scheduled.map fun (h, failedBy) =>
          if taken.contains h ∧ failedBy.contains peer then (h, []) else (h, failedBy)
        inFlight := d.inFlight ++ [(a.id, peer, taken)] } := by
  refine ⟨_, pick_fst peer live (max capacity 1) scheduled, ?_⟩
  rw [← pick_snd peer live (max capacity 1) scheduled nodup]
  unfold reserve at handed
  dsimp only at handed
  split at handed
  · cases handed
  · cases handed
    exact ⟨rfl, rfl⟩

/-- Whoever is handed a hash that it failed before gets it with all failures forgiven. -/
theorem failedBy_of_handed {taken : List Hash}
    (handed : d'.scheduled = d.scheduled.map fun (h, failedBy) =>
      if taken.contains h ∧ failedBy.contains peer then (h, []) else (h, failedBy)) (hash : Hash) :
    d'.failedBy hash = if hash ∈ taken ∧ peer ∈ d.failedBy hash then [] else d.failedBy hash := by
  rw [failedBy, failedBy, handed, Keyed.lookup_map fun e => by dsimp only; split <;> rfl]
  simp only [List.contains_iff_mem]
  cases d.scheduled.lookup hash with
  | none => simp
  | some failed =>
    simp only [Option.map_some, Option.getD_some]
    split <;> rfl

variable (σ : Type) [NodeStore σ]

/-- A download somewhere in its course. Between two calls the database may have changed in any way,
and a call that it failed may be followed by others. -/
inductive Underway : StateDownload → Prop where
  | start {session commitBatch : Nat} {root : Hash} {store : σ} {d : StateDownload} :
    start session root store commitBatch = .ok d → Underway d
  | call (t : Desk σ StateDownload) (m : Move) : Underway t.task → Underway (t.apply m).task

variable {σ}

theorem Underway.run {t : Desk σ StateDownload} (h : Underway σ t.task) (moves : List Move) :
    Underway σ (t.run moves).task :=
  Desk.run_invariant (P := fun t => Underway σ t.task) h fun t m _ => Underway.call t m

theorem placed_apply {t : Desk σ StateDownload} {held : List Hash} (p : Placed held t.task)
    (m : Move) : ∃ other, Placed other (t.apply m).task := by
  cases m with
  | reserve peer capacity live =>
    simp only [Desk.apply]
    split
    · exact ⟨held, p⟩
    · rename_i handed
      exact ⟨held, (placed_reserve p handed).1⟩
  | deliver id peer payload =>
    simp only [Desk.apply, Receiver.deliver]
    cases hd : t.task.deliver t.board.store id peer payload.nodesOf with
    | mk d x =>
      obtain ⟨store, result⟩ := x
      cases result <;> exact (placed_deliver p hd).1
  | fail id => exact ⟨held, (placed_fail p id).1⟩
  | failPeer peer => exact ⟨held, (placed_failPeer p peer).1⟩

theorem Underway.placed (h : Underway σ d) : ∃ held, Placed held d := by
  induction h with
  | start opened => exact ⟨[], placed_start opened⟩
  | call t m _ ih =>
    obtain ⟨held, p⟩ := ih
    exact placed_apply p m

/-- Every queued hash is scheduled, and queued once. -/
theorem Underway.queued (h : Underway σ d) :
    d.queue.Nodup ∧ ∀ c ∈ d.queue, c ∈ d.scheduled.map Prod.fst := by
  obtain ⟨held, p⟩ := h.placed
  have nodup := p.places.nodup_iff.mpr p.nodup
  exact ⟨nodup.of_append_left.of_append_left, fun c hc => p.mem_scheduled (by simp [hc])⟩

/-- However far a download is, and whatever its database did: a peer is handed the first of the
queued hashes that it may be asked for, as many as it can take but at least one. Those of them that
it failed before are forgiven, and what is left of the queue keeps its order. If it may be asked
for none it is handed nothing, and the search leaves the queue as it was; but while hashes are
queued some live peer can have one. -/
theorem reserve_takes_the_first_eligible (underway : Underway σ d) (peer : PeerId) (capacity : Nat)
    (live : List PeerId) :
    let eligible := d.queue.filter (d.Eligible peer live ·)
    let taken := eligible.take (max capacity 1)
    (d.reserve peer capacity live = none ↔ ∀ hash ∈ d.queue, ¬ d.Eligible peer live hash) ∧
    (d.reserve peer capacity live = none →
      d.pick peer live (max capacity 1) d.queue = ([], d.queue)) ∧
    (∀ a d', d.reserve peer capacity live = some (a, d') →
      a = ⟨⟨d.session, d.nextAttempt⟩, ⟨d.committed, taken.length⟩, .nodes taken⟩ ∧
      taken.length = min (max capacity 1) eligible.length ∧
      d'.queue = d.queue.filter (· ∉ taken) ∧ (taken ++ d'.queue).Perm d.queue ∧
      d'.scheduled.map Prod.fst = d.scheduled.map Prod.fst ∧
      (∀ hash, d'.failedBy hash =
        if hash ∈ taken ∧ peer ∈ d.failedBy hash then [] else d.failedBy hash) ∧
      d' = { d with
        nextAttempt := d.nextAttempt + 1
        queue := d'.queue
        scheduled := d'.scheduled
        inFlight := d.inFlight ++ [(a.id, peer, taken)] }) ∧
    (d.queue ≠ [] → live ≠ [] →
      ∃ other ∈ live, ∀ room, (d.reserve other room live).isSome) := by
  intro eligible taken
  obtain ⟨nodup, scheduled⟩ := underway.queued
  refine ⟨reserve_eq_none_iff scheduled, fun nothing => ?same, fun a d' handed => ?some,
    fun queued someone => ?offer⟩
  case same =>
    exact pick_of_none peer live _ scheduled nodup ((reserve_eq_none_iff scheduled).mp nothing)
  case some =>
    have moved := moved_reserve handed
    have perm := pick_perm peer live (max capacity 1) d.queue scheduled
    rw [pick_snd peer live _ scheduled nodup, pick_fst peer live _ scheduled] at perm
    obtain ⟨_, rfl, rfl, rfl⟩ := reserve_eq_some scheduled nodup handed
    exact ⟨rfl, List.length_take, rfl, perm, moved.scheduled, failedBy_of_handed rfl, rfl⟩
  case offer =>
    obtain ⟨hash, hmem⟩ := List.exists_mem_of_ne_nil _ queued
    obtain ⟨other, hlive, fit⟩ := d.exists_eligible hash someone
    refine ⟨other, hlive, fun room => Option.isSome_iff_ne_none.mpr fun nothing => ?_⟩
    exact (reserve_eq_none_iff scheduled).mp nothing hash hmem fit

/-- The second peer failed the last two of three children. Everyone failed the last one, so that it
is handed over from behind the other, which is passed over. -/
theorem reserve_takes_the_first_eligible_forgiven :
    let top : Bytes := Simulation.encodeNode [11, 12, 13] []
    let task : StateDownload :=
      { root := keccak top, session := 7, nextAttempt := 0, queue := [keccak top],
        scheduled := [(keccak top, [])], inFlight := [], waiting := [], parents := [],
        membatch := [], membatchHashes := [], commitBatch := 16, committed := 0 }
    let t : Desk MemoryStore StateDownload := ⟨task, ⟨{}, ⟨[]⟩⟩, none⟩
    let moves : List Move := [.reserve 1 8 [1, 2], .deliver ⟨7, 0⟩ 1 (.nodes [top]),
      .reserve 1 2 [1, 2], .reserve 2 2 [1, 2], .fail ⟨7, 1⟩, .fail ⟨7, 2⟩, .reserve 2 1 [1, 2],
      .fail ⟨7, 3⟩]
    let d := (t.run moves).task
    Underway MemoryStore d ∧
      d.queue.map (fun hash => (hash, d.failedBy hash)) = [(12, [1]), (13, [2]), (11, [2, 1])] ∧
      (∃ work d', d.reserve 2 8 [1, 2] = some (work, d') ∧ work.request = .nodes [12, 11] ∧
        d'.queue = [13] ∧ d'.failedBy 12 = [1] ∧ d'.failedBy 11 = []) ∧
      ∃ other ∈ [1, 2], ∀ room, (d.reserve other room [1, 2]).isSome := by
  intro top task t moves d
  have hroot : keccak top ≠ emptyTrieHash := by decide +kernel
  have opened : start 7 (keccak top) t.board.store 16 = .ok task := by
    rw [start, if_neg hroot]
    rfl
  have underway : Underway MemoryStore d := Underway.run (.start opened) moves
  obtain ⟨queue, eligible, left, forgiven⟩ :
      d.queue.map (fun hash => (hash, d.failedBy hash)) = [(12, [1]), (13, [2]), (11, [2, 1])] ∧
      d.queue.filter (d.Eligible 2 [1, 2] ·) = [12, 11] ∧
      d.queue.filter (· ∉ [12, 11]) = [13] ∧ d.failedBy 12 = [1] ∧ d.failedBy 11 = [2, 1] := by
    decide +kernel
  have waiting : d.queue ≠ [] := by
    intro empty
    rw [empty] at queue
    cases queue
  obtain ⟨nothing, -, handed, offers⟩ := reserve_takes_the_first_eligible underway 2 8 [1, 2]
  refine ⟨underway, queue, ?_, offers waiting (by simp)⟩
  cases found : d.reserve 2 8 [1, 2] with
  | none =>
    rw [List.filter_eq_nil_iff.mpr (by simpa using nothing.mp found)] at eligible
    cases eligible
  | some x =>
    obtain ⟨work, d'⟩ := x
    obtain ⟨rfl, -, queued, -, -, failures, -⟩ := handed work d' found
    simp only [eligible] at queued failures
    refine ⟨_, d', rfl, ?_, queued.trans left, ?_, ?_⟩
    · simp only [eligible]
      rfl
    · rw [failures, forgiven.1]
      decide
    · rw [failures, forgiven.2]
      decide

end ChainSync.StateDownload
