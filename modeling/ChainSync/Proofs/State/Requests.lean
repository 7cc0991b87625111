import ChainSync.Proofs.State.Growth
set_option autoImplicit false

/-!
Where the scheduled hashes are: each waits in the queue or is asked for by one request, unless the
database failed while an answer was being taken in.
-/

namespace ChainSync.StateDownload

variable {held : List Hash} {d d' : StateDownload}

/-- `held` are the hashes of a request that is being answered, or was when the database failed. -/
structure Placed (held : List Hash) (d : StateDownload) : Prop where
  nodup : (d.scheduled.map Prod.fst).Nodup
  places : (d.queue ++ d.inFlight.flatMap (·.2.2) ++ held).Perm (d.scheduled.map Prod.fst)
  ids : (d.inFlight.map Prod.fst).Nodup
  issued : ∀ e ∈ d.inFlight, e.1.session = d.session ∧ e.1.attempt < d.nextAttempt

/-- Hashes were handed out or put back, and nothing else. -/
structure Moved (d d' : StateDownload) : Prop where
  scheduled : d'.scheduled.map Prod.fst = d.scheduled.map Prod.fst
  waiting : d'.waiting = d.waiting
  parents : d'.parents = d.parents
  membatch : d'.membatch = d.membatch
  membatchHashes : d'.membatchHashes = d.membatchHashes
  committed : d'.committed = d.committed

theorem Moved.refl (d : StateDownload) : Moved d d := ⟨rfl, rfl, rfl, rfl, rfl, rfl⟩

theorem Moved.trans {e : StateDownload} (h : Moved d e) (h' : Moved e d') : Moved d d' :=
  ⟨h'.scheduled.trans h.scheduled, h'.waiting.trans h.waiting, h'.parents.trans h.parents,
    h'.membatch.trans h.membatch,
    h'.membatchHashes.trans h.membatchHashes, h'.committed.trans h.committed⟩

theorem Moved.pending (h : Moved d d') : d'.pending = d.pending := by
  have hlen := congrArg List.length h.scheduled
  rw [List.length_map, List.length_map] at hlen
  rw [StateDownload.pending, StateDownload.pending, hlen, h.waiting]

theorem Moved.isDone (h : Moved d d') : d'.isDone = d.isDone := by
  rw [StateDownload.isDone, StateDownload.isDone, h.pending, h.membatch]

theorem Placed.mem_scheduled (p : Placed held d) {h : Hash}
    (hm : h ∈ d.queue ++ d.inFlight.flatMap (·.2.2) ++ held) : h ∈ d.scheduled.map Prod.fst :=
  p.places.mem_iff.mp hm

theorem Placed.grown (p : Placed held d) (g : Grown d d') : Placed held d' := by
  obtain ⟨new, hs, hq⟩ := g.added
  refine ⟨g.nodup p.nodup, ?_, g.inFlight ▸ p.ids, ?_⟩
  · rw [hs, hq, g.inFlight]
    refine List.Perm.trans ?_ (p.places.append_right new)
    simp only [List.append_assoc]
    refine List.Perm.append_left _ (List.perm_append_comm.trans ?_)
    rw [List.append_assoc]
  · rw [g.inFlight, g.session, g.nextAttempt]
    exact p.issued

theorem requeue_moved (failed : Option PeerId) (h : Hash) : Moved d (d.requeue failed h) := by
  unfold requeue
  split
  · refine ⟨?_, rfl, rfl, rfl, rfl, rfl⟩
    cases failed with
    | none => rfl
    | some peer =>
      simp only [List.map_map]
      refine List.map_congr_left fun e _ => ?_
      simp only [Function.comp_apply]
      split <;> rfl
  · exact .refl d

theorem placed_requeue (failed : Option PeerId) {h : Hash} (p : Placed (h :: held) d) :
    Placed held (d.requeue failed h) := by
  have hmem : h ∈ d.scheduled.map Prod.fst := p.mem_scheduled (by simp)
  have hmoved := requeue_moved (d := d) failed h
  have hqueue : (d.requeue failed h).queue = d.queue ++ [h] := by
    unfold requeue
    rw [if_pos (Keyed.lookup_isSome_iff.mpr hmem)]
  have hrest : (d.requeue failed h).inFlight = d.inFlight ∧
      (d.requeue failed h).session = d.session ∧
      (d.requeue failed h).nextAttempt = d.nextAttempt := by
    unfold requeue
    split <;> exact ⟨rfl, rfl, rfl⟩
  refine ⟨hmoved.scheduled ▸ p.nodup, ?_, hrest.1 ▸ p.ids, ?_⟩
  · rw [hmoved.scheduled, hqueue, hrest.1]
    refine List.Perm.trans ?_ p.places
    simp only [List.append_assoc]
    exact List.Perm.append_left _ (List.perm_append_comm_assoc [h] _ _)
  · rw [hrest.1, hrest.2.1, hrest.2.2]
    exact p.issued

theorem moved_requeueAll (failed : Option PeerId) (hs : List Hash) :
    Moved d (hs.foldl (requeue · failed) d) := by
  induction hs generalizing d with
  | nil => exact .refl d
  | cons h hs ih => exact (requeue_moved failed h).trans ih

theorem placed_requeueAll (failed : Option PeerId) {hs : List Hash} (p : Placed (hs ++ held) d) :
    Placed held (hs.foldl (requeue · failed) d) := by
  induction hs generalizing d with
  | nil => exact p
  | cons h hs ih => exact ih (placed_requeue failed p)

/-- A request that is taken out leaves its hashes to be placed again. -/
theorem Placed.take {id : RequestId} {peer : PeerId} {hashes : List Hash} (p : Placed held d)
    (h : d.inFlight.lookup id = some (peer, hashes)) :
    Placed (hashes ++ held) { d with inFlight := d.inFlight.filter (·.1 != id) } := by
  have hperm := Keyed.perm_cons_filter p.ids (Keyed.mem_of_lookup h)
  refine ⟨p.nodup, ?_, Keyed.nodup_filter p.ids id,
    fun e he => p.issued e (List.mem_of_mem_filter he)⟩
  refine List.Perm.trans ?_ p.places
  rw [← List.append_assoc, List.append_assoc d.queue]
  refine List.Perm.append_right _ (List.Perm.append_left _ (List.perm_append_comm.trans ?_))
  exact (hperm.flatMap_right (·.2.2)).symm

/-- A hash that is answered leaves the schedule. -/
theorem Placed.answer {hash : Hash} (p : Placed held d) (hm : hash ∈ held) :
    Placed (held.filter (· != hash))
      { d with scheduled := d.scheduled.filter (·.1 != hash) } := by
  refine ⟨Keyed.nodup_filter p.nodup hash, ?_, p.ids, p.issued⟩
  -- the hash was in the answered request only
  have hnodup := p.places.nodup_iff.mpr p.nodup
  have hnot : ∀ x ∈ d.queue ++ d.inFlight.flatMap (·.2.2), (x != hash) = true := by
    intro x hx
    rw [bne_iff_ne]
    rintro rfl
    exact (List.nodup_append.mp hnodup).2.2 x hx x hm rfl
  have hfilter := p.places.filter (· != hash)
  rwa [List.filter_append, List.filter_eq_self.mpr hnot, ← Keyed.map_fst_filter] at hfilter

theorem moved_fail (d : StateDownload) (id : RequestId) : Moved d (d.fail id).2 := by
  unfold fail
  split
  · exact .refl d
  · have taking : Moved d { d with inFlight := d.inFlight.filter (·.1 != id) } :=
      ⟨rfl, rfl, rfl, rfl, rfl, rfl⟩
    exact taking.trans (moved_requeueAll ..)

/-- What one lost request keeps, losing all requests of a peer keeps. -/
theorem failPeer_induction {P : StateDownload → Prop} (peer : PeerId) (start : P d)
    (step : ∀ {d} id, P d → P (d.fail id).2) : P (d.failPeer peer).2 := by
  unfold failPeer
  generalize d.requestsOf peer = ids
  induction ids generalizing d with
  | nil => exact start
  | cons id ids ih => exact ih (step id start)

theorem moved_failPeer (d : StateDownload) (peer : PeerId) : Moved d (d.failPeer peer).2 :=
  failPeer_induction (P := Moved d) peer (.refl d) fun id h => h.trans (moved_fail _ id)

theorem placed_fail (p : Placed held d) (id : RequestId) :
    Placed held (d.fail id).2 ∧ Moved d (d.fail id).2 := by
  refine ⟨?_, moved_fail d id⟩
  unfold fail
  cases hl : d.inFlight.lookup id with
  | none => exact p
  | some x =>
    obtain ⟨peer, hashes⟩ := x
    exact placed_requeueAll (some peer) (p.take hl)

theorem placed_failPeer (p : Placed held d) (peer : PeerId) :
    Placed held (d.failPeer peer).2 ∧ Moved d (d.failPeer peer).2 :=
  ⟨failPeer_induction peer p fun id p => (placed_fail p id).1, moved_failPeer d peer⟩

theorem pick_perm (peer : PeerId) (live : List PeerId) (room : Nat) (queue : List Hash)
    (h : ∀ c ∈ queue, c ∈ d.scheduled.map Prod.fst) :
    ((d.pick peer live room queue).1 ++ (d.pick peer live room queue).2).Perm queue := by
  fun_induction pick d peer live room queue with
  | case1 queue => exact .refl _
  | case2 => exact .refl _
  | case3 room c rest hl ih =>
    exact absurd (h c (List.mem_cons_self ..)) (Keyed.lookup_eq_none_iff.mp hl)
  | case4 room c rest failedBy hl eligible taken left heq ih =>
    have hrest := ih fun c' hc' => h c' (List.mem_cons_of_mem _ hc')
    rw [heq] at hrest
    exact hrest.cons c
  | case5 room c rest failedBy hl ineligible taken left heq ih =>
    have hrest := ih fun c' hc' => h c' (List.mem_cons_of_mem _ hc')
    rw [heq] at hrest
    exact List.perm_middle.trans (hrest.cons c)

theorem moved_reserve {peer : PeerId} {capacity : Nat} {live : List PeerId}
    {a : Fetch.Assignment} (hr : d.reserve peer capacity live = some (a, d')) : Moved d d' := by
  simp only [reserve] at hr
  split at hr
  · cases hr
  · obtain ⟨-, rfl⟩ := Prod.mk.inj (Option.some_inj.mp hr)
    refine ⟨?_, rfl, rfl, rfl, rfl, rfl⟩
    simp only [List.map_map]
    refine List.map_congr_left fun e _ => ?_
    simp only [Function.comp_apply]
    split <;> rfl

theorem placed_reserve (p : Placed held d) {peer : PeerId} {capacity : Nat} {live : List PeerId}
    {a : Fetch.Assignment} (hr : d.reserve peer capacity live = some (a, d')) :
    Placed held d' ∧ Moved d d' := by
  have moved := moved_reserve hr
  refine ⟨?_, moved⟩
  have hpick := pick_perm (d := d) peer live (max capacity 1) d.queue
    fun c hc => p.mem_scheduled (by simp [hc])
  simp only [reserve] at hr
  generalize d.pick peer live (max capacity 1) d.queue = x at hr hpick
  obtain ⟨taken, left⟩ := x
  simp only at hr hpick
  split at hr
  · simp at hr
  · obtain ⟨-, rfl⟩ := Prod.mk.inj (Option.some_inj.mp hr)
    refine ⟨moved.scheduled ▸ p.nodup, ?_, ?_, fun e he => ?_⟩
    · rw [moved.scheduled]
      refine List.Perm.trans ?_ p.places
      simp only [List.flatMap_append, List.flatMap_cons, List.flatMap_nil, List.append_nil]
      refine List.Perm.append_right _ ?_
      rw [← List.append_assoc]
      refine List.Perm.trans (List.perm_append_comm.trans ?_) (hpick.append_right _)
      rw [List.append_assoc]
    · rw [List.map_append]
      refine List.nodup_append.mpr ⟨p.ids, List.nodup_singleton _, fun i hi j hj hij => ?_⟩
      obtain ⟨e, he, rfl⟩ := List.mem_map.mp hi
      have hlt := (p.issued e he).2
      rw [hij, List.mem_singleton.mp hj] at hlt
      exact Nat.lt_irrefl _ hlt
    · rcases List.mem_append.mp he with he | he
      · exact ⟨(p.issued e he).1, Nat.lt_succ_of_lt (p.issued e he).2⟩
      · obtain rfl := List.mem_singleton.mp he
        exact ⟨rfl, Nat.lt_succ_self _⟩

section Database

variable {σ : Type} [NodeStore σ] {s s' : σ}

theorem placed_start {session commitBatch : Nat} {root : Hash}
    (opened : start session root s commitBatch = .ok d) : Placed [] d := by
  have blank {d : StateDownload} (queue : d.queue = []) (scheduled : d.scheduled = [])
      (inFlight : d.inFlight = []) : Placed [] d := by
    refine ⟨?_, ?_, ?_, ?_⟩ <;> simp [queue, scheduled, inFlight]
  unfold start at opened
  dsimp only at opened
  split at opened
  · cases opened
    exact blank rfl rfl rfl
  · split at opened <;> cases opened
    · exact blank rfl rfl rfl
    · exact (blank rfl rfl rfl).grown (grown_schedule ..)

theorem placed_takeIn {outstanding : List Hash} {accepted unrequested : Nat} {nodes : List Bytes}
    {res : Except StoreError (List Hash × Nat × Nat)} (p : Placed (outstanding ++ held) d)
    (ht : d.takeIn s outstanding accepted unrequested nodes = (d', s', res)) :
    (∃ other, Placed other d') ∧ ∀ left counts, res = .ok (left, counts) →
      Placed (left ++ held) d' ∧ ∃ kept : Hash → Bool, left = outstanding.filter kept := by
  induction nodes generalizing d s outstanding accepted unrequested with
  | nil =>
    cases ht
    refine ⟨⟨_, p⟩, fun left counts hok => ?_⟩
    cases hok
    exact ⟨p, fun _ => true, (List.filter_eq_self.mpr fun _ _ => rfl).symm⟩
  | cons data rest ih =>
    simp only [takeIn] at ht
    split at ht
    · rename_i hm
      rw [List.contains_iff_mem] at hm
      have answered := p.answer (List.mem_append_left held hm)
      -- what was lost before is not asked for in this request
      have apart : held.filter (· != keccak data) = held := by
        have nodup := (p.places.nodup_iff.mpr p.nodup).of_append_right
        refine List.filter_eq_self.mpr fun x hx => bne_iff_ne.mpr ?_
        rintro rfl
        exact (List.nodup_append.mp nodup).2.2 _ hm _ hx rfl
      rw [List.filter_append, apart] at answered
      have processed := answered.grown (grown_process _ s (keccak data) data)
      split at ht <;> rename_i heq <;> rw [heq] at processed
      · cases ht
        exact ⟨⟨_, processed⟩, fun left counts hok => by cases hok⟩
      · obtain ⟨placed, hok⟩ := ih processed ht
        refine ⟨placed, fun left counts hres => ?_⟩
        obtain ⟨placed, kept, rfl⟩ := hok left counts hres
        exact ⟨placed, _, List.filter_filter⟩
    · exact ih p ht

/-- Whatever is answered, every hash is placed again, unless the database fails. -/
theorem placed_deliver {id : RequestId} {peer : PeerId} {nodes : List Bytes}
    {res : Except SyncError Fetch.Delivery} (p : Placed held d)
    (hd : d.deliver s id peer nodes = (d', s', res)) :
    (∃ other, Placed other d') ∧ ∀ delivery, res = .ok delivery → Placed held d' := by
  unfold deliver at hd
  cases hl : d.inFlight.lookup id with
  | none =>
    rw [hl] at hd
    cases hd
    exact ⟨⟨_, p⟩, fun _ _ => p⟩
  | some request =>
    obtain ⟨owner, requested⟩ := request
    rw [hl] at hd
    simp only at hd
    split at hd <;> rename_i ht <;> obtain ⟨placed, hok⟩ := placed_takeIn (p.take hl) ht
    · cases hd
      exact ⟨placed, fun _ hres => by cases hres⟩
    · obtain ⟨placed, kept, rfl⟩ := hok _ _ rfl
      have same : requested.filter (requested.filter kept).contains = requested.filter kept :=
        List.filter_congr fun c hc => by simp [hc]
      cases hd
      rw [same]
      have requeued (failed : Option PeerId) := placed_requeueAll failed placed
      exact ⟨⟨_, requeued _⟩, fun _ _ => requeued _⟩

end Database

end ChainSync.StateDownload
