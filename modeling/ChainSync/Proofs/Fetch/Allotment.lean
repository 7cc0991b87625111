import ChainSync.Proofs.Fetch.Custody
set_option autoImplicit false

/-!
What a queue hands out, and to whom: the lowest range that the peer may have, cut to what it can
take, with all other ranges left as they are.
-/

namespace ChainSync

namespace Positioned

variable {α : Type} {m before after : Positioned α} {p : Nat} {a b : α}

/-- Each position is behind those that stand before it. -/
def Ascending (m : Positioned α) : Prop := m.Pairwise (·.1 < ·.1)

theorem Ascending.insert (h : m.Ascending) (p : Nat) (a : α) : (m.insert p a).Ascending := by
  unfold Ascending at h ⊢
  induction m with
  | nil => exact List.pairwise_singleton ..
  | cons e m ih =>
    obtain ⟨head, tail⟩ := List.pairwise_cons.mp h
    unfold Positioned.insert
    split
    · rename_i less
      refine List.pairwise_cons.mpr ⟨fun x hx => ?_, h⟩
      rcases List.mem_cons.mp hx with rfl | hx
      · exact less
      · exact Nat.lt_trans less (head x hx)
    · split
      · rename_i same
        exact List.pairwise_cons.mpr ⟨fun x hx => same ▸ head x hx, tail⟩
      · refine List.pairwise_cons.mpr ⟨fun x hx => ?_, ih tail⟩
        rcases mem_of_mem_insert hx with rfl | hx
        · exact Nat.lt_of_le_of_ne (Nat.le_of_not_lt ‹_›) (Ne.symm ‹_›)
        · exact head x hx

theorem Ascending.erase (h : m.Ascending) (p : Nat) : (m.erase p).Ascending :=
  List.Pairwise.filter _ h

/-- What is inserted stands between what is lower and what is higher. -/
theorem insert_between (lower : ∀ e ∈ before, e.1 < p) (higher : ∀ e ∈ after, p < e.1) :
    (before ++ after).insert p a = before ++ (p, a) :: after := by
  induction before with
  | nil =>
    cases after with
    | nil => rfl
    | cons e after =>
      have less : p < e.1 := higher e (List.mem_cons_self ..)
      rw [List.nil_append, Positioned.insert, if_pos less]
      rfl
  | cons e before ih =>
    simp only [List.mem_cons, forall_eq_or_imp] at lower
    rw [List.cons_append, Positioned.insert, if_neg (Nat.not_lt.mpr (Nat.le_of_lt lower.1)),
      if_neg (Nat.ne_of_gt lower.1), ih lower.2]
    rfl

theorem Ascending.parts (h : (before ++ (p, b) :: after).Ascending) :
    (∀ e ∈ before, e.1 < p) ∧ ∀ e ∈ after, p < e.1 := by
  obtain ⟨-, rest, apart⟩ := List.pairwise_append.mp h
  exact ⟨fun e he => apart e he _ (List.mem_cons_self ..), (List.pairwise_cons.mp rest).1⟩

theorem Ascending.erase_between (h : (before ++ (p, b) :: after).Ascending) :
    Positioned.erase (before ++ (p, b) :: after) p = before ++ after := by
  obtain ⟨lower, higher⟩ := h.parts
  have below : before.filter (·.1 != p) = before :=
    List.filter_eq_self.mpr fun e he => bne_iff_ne.mpr (Nat.ne_of_lt (lower e he))
  have above : after.filter (·.1 != p) = after :=
    List.filter_eq_self.mpr fun e he => bne_iff_ne.mpr (Nat.ne_of_gt (higher e he))
  rw [Positioned.erase, List.filter_append, List.filter_cons_of_neg (by simp), below, above]

end Positioned

namespace Fetch

variable {α : Type}

theorem Pending.eligible_iff {b : Pending} {peer : PeerId} {live : List PeerId} :
    b.eligible peer live = true ↔ peer ∉ b.failedBy ∨ ∀ other ∈ live, other ∈ b.failedBy := by
  simp [Pending.eligible]

theorem Pending.count_retry (b : Pending) (peer : PeerId) : (b.retry peer).count = b.count := by
  unfold retry
  split <;> rfl

theorem Pending.failedBy_retry (b : Pending) (peer : PeerId) :
    (b.retry peer).failedBy = if peer ∈ b.failedBy then [] else b.failedBy := by
  unfold retry
  simp only [List.contains_iff_mem]
  split <;> rfl

/-- Who is handed something is not among those that failed it any more. -/
theorem Pending.not_mem_retry (b : Pending) (peer : PeerId) : peer ∉ (b.retry peer).failedBy := by
  rw [failedBy_retry]
  split
  · exact List.not_mem_nil
  · assumption

namespace Queue

variable {q : Queue α} {peer : PeerId} {capacity : Nat} {live : List PeerId}

theorem reserve_eq_none_iff :
    q.reserve peer capacity live = none ↔ ∀ e ∈ q.pending, ¬ e.2.eligible peer live := by
  unfold reserve
  split
  · rename_i nobody
    exact iff_of_true rfl (List.find?_eq_none.mp nobody)
  · rename_i found
    refine iff_of_false nofun fun nobody => ?_
    have eligible := List.find?_some found
    exact nobody _ (List.mem_of_find?_eq_some found) eligible

/-- Some live peer may have it, as all may once everyone has failed it. -/
theorem exists_eligible (b : Pending) {live : List PeerId} (someone : live ≠ []) :
    ∃ peer ∈ live, b.eligible peer live := by
  by_cases all : live.all b.failedBy.contains
  · obtain ⟨peer, rest, rfl⟩ := List.exists_cons_of_ne_nil someone
    exact ⟨peer, List.mem_cons_self .., by rw [Pending.eligible, all, Bool.or_true]⟩
  · obtain ⟨peer, hp, unfailed⟩ : ∃ peer ∈ live, b.failedBy.contains peer = false := by
      simpa using all
    exact ⟨peer, hp, by rw [Pending.eligible, unfailed]; rfl⟩

theorem exists_offered (waiting : q.pending ≠ []) (someone : live ≠ []) :
    ∃ peer ∈ live, ∀ capacity, (q.reserve peer capacity live).isSome := by
  obtain ⟨batch, hbatch⟩ := List.exists_mem_of_ne_nil _ waiting
  obtain ⟨peer, hp, eligible⟩ := exists_eligible batch.2 someone
  refine ⟨peer, hp, fun capacity => Option.isSome_iff_ne_none.mpr fun none => ?_⟩
  exact reserve_eq_none_iff.mp none batch hbatch eligible

end Queue

namespace Bench

variable {start stop : Nat} {b : Bench α}

theorem ascending_complete {q : Queue α} (h : q.pending.Ascending) (r : InFlight) (items : List α)
    (atFault : Bool) : (q.complete r items atFault).pending.Ascending := by
  obtain ⟨failedBy, heq⟩ := q.complete_eq r items atFault
  rw [heq, Queue.requeue_eq]
  dsimp only
  split
  · exact h
  · exact h.insert ..

theorem ascending_fail {q q' : Queue α} {id : RequestId} {r : InFlight} (h : q.pending.Ascending)
    (failed : q.fail? id = some (r, q')) : q'.pending.Ascending := by
  rw [Queue.fail?_eq, Option.map_eq_some_iff] at failed
  obtain ⟨⟨r, taken⟩, ht, heq⟩ := failed
  cases heq
  obtain ⟨-, rfl⟩ := Queue.take?_eq_some.mp ht
  refine ascending_complete ?_ r [] true
  exact h

theorem ascending_apply (h : b.queue.pending.Ascending) (op : Op α) :
    (b.apply op).queue.pending.Ascending := by
  cases op with
  | reserve peer capacity live =>
    simp only [apply]
    split
    · exact h
    · rename_i id range queue handed
      obtain ⟨batch, failedBy, -, -, -, -, -, rfl⟩ := Queue.reserve_eq_some handed
      dsimp only
      split
      · exact (h.erase _).insert ..
      · exact h.erase _
  | take id =>
    simp only [apply]
    split
    · exact h
    · rename_i request queue taken
      obtain ⟨-, rfl⟩ := Queue.take?_eq_some.mp taken
      exact h
  | complete id items atFault =>
    simp only [apply]
    split
    · exact h
    · exact ascending_complete h ..
  | fail id =>
    simp only [apply]
    split
    · exact h
    · exact ascending_fail h ‹_›
  | failPeer peer =>
    exact Queue.failPeer_induction (P := fun queue => queue.pending.Ascending) peer h ascending_fail
  | takeReady => exact h

theorem ascending_run (h : b.queue.pending.Ascending) (ops : List (Op α)) :
    (b.run ops).queue.pending.Ascending := by
  induction ops generalizing b with
  | nil => exact h
  | cons op ops ih => exact ih (ascending_apply h op)

/-- A batch ends where the ones behind it begin, or before. -/
theorem Balanced.stop_le {before after : Positioned Pending} {p : Nat} {batch : Pending}
    (h : b.Balanced start stop) (ascending : b.queue.pending.Ascending)
    (parts : b.queue.pending = before ++ (p, batch) :: after) :
    ∀ e ∈ after, p + batch.count ≤ e.1 := by
  intro e he
  have higher : p < e.1 := (Positioned.Ascending.parts (parts ▸ ascending)).2 e he
  have mem : (⟨e.1, e.2.count⟩ : Range) ∈ pendingRanges b.queue.pending :=
    List.mem_map_of_mem (by rw [parts]; simp [he])
  have filled : 0 < e.2.count := h.filled_pending _ mem
  by_contra inside
  -- else its first position would be pending twice
  have twice : 2 ≤ cover (pendingRanges b.queue.pending) e.1 := by
    have one : 0 < cover (pendingRanges after) e.1 :=
      cover_pos (r := ⟨e.1, e.2.count⟩) (List.mem_map_of_mem he) (Nat.le_refl _)
        (Nat.lt_add_of_pos_right filled)
    rw [parts]
    simp only [pendingRanges, List.map_append, List.map_cons, cover_append, cover_cons] at one ⊢
    rw [if_pos (by omega)]
    omega
  have once := h.le_one e.1
  rw [cover_places] at once
  omega

/-- What a reservation hands out, and what it leaves. -/
theorem reserve_splits {peer : PeerId} {capacity : Nat} {live : List PeerId} {id : RequestId}
    {range : Range} {queue : Queue α} (h : b.Balanced start stop)
    (ascending : b.queue.pending.Ascending)
    (handed : b.queue.reserve peer capacity live = some (id, range, queue)) :
    ∃ before batch after,
      b.queue.pending = before ++ (range.start, batch) :: after ∧ batch.eligible peer live ∧
      (∀ e ∈ before, ¬ e.2.eligible peer live) ∧
      range.count =
        (if b.queue.splittable then min batch.count (max capacity 1) else batch.count) ∧
      id = ⟨b.queue.session, b.queue.nextAttempt⟩ ∧
      queue = { b.queue with
        nextAttempt := b.queue.nextAttempt + 1
        pending := before ++
          (if range.count < batch.count then
            [(range.stop, ⟨batch.count - range.count, (batch.retry peer).failedBy⟩)]
          else []) ++ after
        inFlight := b.queue.inFlight ++ [(id, ⟨peer, range, (batch.retry peer).failedBy⟩)] } := by
  unfold Queue.reserve at handed
  split at handed
  · cases handed
  · rename_i first batch found
    obtain ⟨eligible, before, after, parts, unfit⟩ := List.find?_eq_some_iff_append.mp found
    cases handed
    have apart := h.stop_le ascending parts
    rw [parts] at ascending
    have lower := ascending.parts.1
    refine ⟨before, batch, after, parts, eligible, fun e he => by simpa using unfit e he, ?_, rfl,
      ?_⟩
    · cases b.queue.splittable with
      | false => simp [Pending.count_retry]
      | true =>
        simp only [Pending.count_retry, true_and, if_true]
        split <;> omega
    · simp only [parts, ascending.erase_between, Pending.count_retry]
      generalize (if b.queue.splittable = true ∧ batch.count > max capacity 1 then max capacity 1
        else batch.count) = count
      split
      · rename_i less
        have below : ∀ e ∈ before, e.1 < Range.stop ⟨first, count⟩ := fun e he =>
          Nat.lt_of_lt_of_le (lower e he) (Nat.le_add_right ..)
        have above : ∀ e ∈ after, Range.stop ⟨first, count⟩ < e.1 := fun e he =>
          Nat.lt_of_lt_of_le (Nat.add_lt_add_left less first) (apart e he)
        rw [Positioned.insert_between below above]
        simp
      · simp

end Bench

theorem ascending_filled {rs : List Range} {m : Positioned Pending} (h : m.Ascending) :
    Positioned.Ascending (rs.foldl (fun m r => m.insert r.start ⟨r.count, []⟩) m) := by
  induction rs generalizing m with
  | nil => exact h
  | cons r rs ih => exact ih (h.insert ..)

theorem Queue.Opens.ascending {q : Queue α} {start stop : Nat} (h : q.Opens start stop) :
    q.pending.Ascending := by
  cases h with
  | count => exact ascending_filled List.Pairwise.nil
  | ranges => exact ascending_filled List.Pairwise.nil

/-- However a queue was worked on before, it hands nothing out only if no pending batch may go to
the peer. Else the lowest one that may does: all of it, or of a queue that may be cut the front that
the peer can take, with the rest pending right behind, under the same failures. Those are forgotten
if the peer's own is among them. Nothing else changes, and while something is pending some live peer
can have it. -/
theorem reserve_hands_out_the_lowest {q : Queue α} {start stop : Nat} (opens : q.Opens start stop)
    (ops : List (Bench.Op α)) (peer : PeerId) (capacity : Nat) (live : List PeerId) :
    let b := Bench.run ⟨q, []⟩ ops
    let eligible (batch : Pending) := peer ∉ batch.failedBy ∨ ∀ other ∈ live, other ∈ batch.failedBy
    (b.queue.reserve peer capacity live = none ↔ ∀ e ∈ b.queue.pending, ¬ eligible e.2) ∧
    (b.queue.reserve peer capacity live = none → b.apply (.reserve peer capacity live) = b) ∧
    (∀ id range queue, b.queue.reserve peer capacity live = some (id, range, queue) →
      ∃ before batch after, b.queue.pending = before ++ (range.start, batch) :: after ∧
        eligible batch ∧ (∀ e ∈ b.queue.pending, eligible e.2 → range.start ≤ e.1) ∧
        range.count =
          (if b.queue.splittable then min batch.count (max capacity 1) else batch.count) ∧
        id = ⟨b.queue.session, b.queue.nextAttempt⟩ ∧
        let failedBy := if peer ∈ batch.failedBy then [] else batch.failedBy
        queue = { b.queue with
          nextAttempt := b.queue.nextAttempt + 1
          pending := before ++
            (if range.count < batch.count then
              [(range.stop, ⟨batch.count - range.count, failedBy⟩)]
            else []) ++ after
          inFlight := b.queue.inFlight ++ [(id, ⟨peer, range, failedBy⟩)] }) ∧
    (b.queue.pending ≠ [] → live ≠ [] →
      ∃ other ∈ live, ∀ capacity, (b.queue.reserve other capacity live).isSome) := by
  intro b eligible
  have balanced : b.Balanced start stop := Bench.balanced_run opens.balanced ops
  have ascending : b.queue.pending.Ascending := Bench.ascending_run opens.ascending ops
  have eligible_iff (batch : Pending) : batch.eligible peer live = true ↔ eligible batch :=
    Pending.eligible_iff
  refine ⟨?none, fun nothing => ?same, fun id range queue handed => ?some, Queue.exists_offered⟩
  case none =>
    simp only [Queue.reserve_eq_none_iff, eligible_iff]
  case same => rw [Bench.apply, nothing]
  case some =>
    obtain ⟨before, batch, after, parts, fit, unfit, count, named, rest⟩ :=
      Bench.reserve_splits balanced ascending handed
    refine ⟨before, batch, after, parts, (eligible_iff batch).mp fit, fun e he other => ?_, count,
      named, ?_⟩
    · rw [parts] at he ascending
      rcases List.mem_append.mp he with below | here
      · exact absurd ((eligible_iff e.2).mpr other) (unfit e below)
      · rcases List.mem_cons.mp here with rfl | above
        · exact Nat.le_refl _
        · exact Nat.le_of_lt (ascending.parts.2 e above)
    · rw [← Pending.failedBy_retry]
      exact rest

/-- The peer has failed both batches, but only the higher one was failed by everyone. -/
theorem reserve_hands_out_the_lowest_forgiven :
    let q : Queue Nat := .ofCount 1 0 16 8 true
    let ops : List (Bench.Op Nat) :=
      [.reserve 1 8 [1, 2], .reserve 2 8 [1, 2], .fail ⟨1, 0⟩, .fail ⟨1, 1⟩, .reserve 1 8 [1, 2],
        .fail ⟨1, 2⟩]
    let b := Bench.run ⟨q, []⟩ ops
    q.Opens 0 16 ∧
      (∃ before batch after, b.queue.pending = before ++ (8, batch) :: after ∧
        (1 ∉ batch.failedBy ∨ ∀ other ∈ [1, 2], other ∈ batch.failedBy)) ∧
      (b.queue.reserve 1 3 [1, 2]).map (·.2.2.pending) = some [(0, ⟨8, [1]⟩), (11, ⟨5, []⟩)] ∧
      ∃ other ∈ [1, 2], ∀ capacity, (b.queue.reserve other capacity [1, 2]).isSome := by
  intro q ops b
  have opens : q.Opens 0 16 := .count 1 0 16 8 true
  obtain ⟨handed, left, waiting⟩ :
      (b.queue.reserve 1 3 [1, 2]).map (·.2.1.start) = some 8 ∧
      (b.queue.reserve 1 3 [1, 2]).map (·.2.2.pending) = some [(0, ⟨8, [1]⟩), (11, ⟨5, []⟩)] ∧
      b.queue.pending ≠ [] := by
    decide +kernel
  obtain ⟨-, -, finds, offers⟩ := reserve_hands_out_the_lowest opens ops 1 3 [1, 2]
  refine ⟨opens, ?_, left, offers waiting (by simp)⟩
  obtain ⟨⟨id, range, queue⟩, reserved, first⟩ := Option.map_eq_some_iff.mp handed
  obtain ⟨before, batch, after, parts, eligible, -⟩ := finds id range queue reserved
  exact ⟨before, batch, after, first ▸ parts, eligible⟩

end Fetch
end ChainSync
