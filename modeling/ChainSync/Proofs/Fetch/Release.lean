import ChainSync.Proofs.Fetch.Custody
set_option autoImplicit false

/-!
What leaves a queue over its whole life: each position once, in order, and not before it was
delivered.
-/

namespace ChainSync

variable {α : Type}

theorem Positioned.forall_numbered_iff {f : Nat → α} {p : Nat} {xs : List α} :
    (∀ e ∈ numbered p xs, e.2 = f e.1) ↔ xs = (List.range' p xs.length).map f := by
  induction xs generalizing p with
  | nil => simp [numbered]
  | cons x xs ih =>
    simp only [numbered, List.mem_cons, forall_eq_or_imp, ih, List.length_cons,
      List.range'_succ, List.map_cons, List.cons.injEq]

namespace Fetch

namespace Queue

/-- A release stops only where nothing was delivered. -/
theorem get?_release {fuel next : Nat} {m : Positioned α} (h : m.length ≤ fuel) :
    (release fuel next m).2.2.get? (release fuel next m).2.1 = none := by
  induction fuel generalizing next m with
  | zero =>
    obtain rfl := List.length_eq_zero_iff.mp (Nat.le_zero.mp h)
    rfl
  | succ fuel ih =>
    unfold release
    cases hg : m.get? next with
    | none => exact hg
    | some a =>
      have hlt : (m.erase next).length < m.length :=
        List.length_filter_lt_length_iff_exists.mpr
          ⟨(next, a), Keyed.mem_of_lookup hg, by simp⟩
      exact ih (by omega)

end Queue

theorem Queue.Opens.start_le_stop {q : Queue α} {start stop : Nat} (h : q.Opens start stop) :
    start ≤ stop := by
  cases h with
  | count => exact Nat.le_add_right ..
  | ranges _ _ tiles _ => exact tiles.le

theorem Queue.Opens.untouched {q : Queue α} {start stop : Nat} (h : q.Opens start stop) :
    q.nextRelease = start ∧ q.delivered = [] := by
  cases h with
  | count => exact ⟨rfl, rfl⟩
  | ranges _ _ tiles nonempty => exact ⟨tiles.start_eq nonempty, rfl⟩

namespace Bench

theorem Balanced.complete_perm {start stop : Nat} {q : Queue α} {id : RequestId} {r : InFlight}
    {taken : List (RequestId × InFlight)} (h : Balanced start stop ⟨q, (id, r) :: taken⟩)
    (items : List α) (atFault : Bool) :
    (q.complete r items atFault).delivered.Perm
      (Positioned.numbered r.range.start (items.take r.range.count) ++ q.delivered) := by
  rw [(q.complete_keeps r items atFault).1]
  exact Positioned.insertAll_perm _ fun i hi hs =>
    (h.free hi (by have := List.length_take_le r.range.count items; omega)).1

theorem Balanced.takeReady_perm {start stop : Nat} {b : Bench α} (h : b.Balanced start stop) :
    b.queue.takeReady.2.nextRelease = b.queue.nextRelease + b.queue.takeReady.1.length ∧
      b.queue.delivered.Perm (Positioned.numbered b.queue.nextRelease b.queue.takeReady.1 ++
        b.queue.takeReady.2.delivered) :=
  Queue.release_perm b.queue.delivered.length b.queue.nextRelease h.nodup_delivered

/-- A completion and the release after it: the items go from the request to the delivered ones,
and from there they leave in order. -/
theorem Balanced.complete_takeReady {start stop : Nat} {q : Queue α} {id : RequestId}
    {r : InFlight} {taken : List (RequestId × InFlight)}
    (h : Balanced start stop ⟨q, (id, r) :: taken⟩) {items : List α}
    (hlen : items.length ≤ r.range.count) (atFault : Bool) :
    let left := (q.complete r items atFault).takeReady
    Balanced start stop ⟨left.2, taken⟩ ∧ left.2.nextRelease = q.nextRelease + left.1.length ∧
      (Positioned.numbered r.range.start items ++ q.delivered).Perm
        (Positioned.numbered q.nextRelease left.1 ++ left.2.delivered) := by
  intro left
  have hcomplete := h.complete_perm items atFault
  have balanced := balanced_complete h items atFault
  have hnext : (q.complete r items atFault).nextRelease = q.nextRelease :=
    (q.complete_keeps r items atFault).2
  obtain ⟨hrelease, hready⟩ := balanced.takeReady_perm
  rw [List.take_of_length_le hlen] at hcomplete
  simp only [hnext] at hrelease hready
  exact ⟨balanced_takeReady balanced, hrelease, hcomplete.symm.trans hready⟩

/-- What operations show, one after the other. -/
def history {β : Type} (look : Bench α → Op α → List β) : Bench α → List (Op α) → List β
  | _, [] => []
  | b, op :: ops => look b op ++ history look (b.apply op) ops

def released (b : Bench α) : Op α → List α
  | .takeReady => b.queue.takeReady.1
  | _ => []

/-- The positions that a completion fills. -/
def delivered (b : Bench α) : Op α → List Nat
  | .complete id items _ =>
    match b.taken.lookup id with
    | none => []
    | some r => List.range' r.range.start (items.take r.range.count).length
  | _ => []

/-- A completion brings the items that belong to the front of its range. What it has beyond the
range does not matter. -/
def Honest (f : Nat → α) (b : Bench α) : Op α → Prop
  | .complete id items _ =>
    match b.taken.lookup id with
    | none => True
    | some r =>
      items.take r.range.count <+: (List.range' r.range.start r.range.count).map f
  | _ => True

def Faithful (f : Nat → α) : Bench α → List (Op α) → Prop
  | _, [] => True
  | b, op :: ops => Honest f b op ∧ Faithful f (b.apply op) ops

instance decidableHonest [DecidableEq α] (f : Nat → α) (b : Bench α) :
    (op : Op α) → Decidable (Honest f b op)
  | .complete id items _ =>
    match h : b.taken.lookup id with
    | none => .isTrue (by simp only [Honest, h])
    | some r => decidable_of_iff
        (items.take r.range.count <+: (List.range' r.range.start r.range.count).map f)
        (by simp only [Honest, h])
  | .reserve .. | .take _ | .fail _ | .failPeer _ | .takeReady => .isTrue trivial

instance decidableFaithful [DecidableEq α] (f : Nat → α) :
    (b : Bench α) → (ops : List (Op α)) → Decidable (Faithful f b ops)
  | _, [] => .isTrue trivial
  | b, op :: ops =>
    have := decidableFaithful f (b.apply op) ops
    inferInstanceAs (Decidable (Honest f b op ∧ Faithful f (b.apply op) ops))

/-- The books on a queue: what was released, and which positions were delivered. -/
structure Accounted (f : Nat → α) (start : Nat) (b : Bench α) (out : List α) (filled : List Nat) :
    Prop where
  out : out = (List.range' start (b.queue.nextRelease - start)).map f
  items : ∀ e ∈ b.queue.delivered, e.2 = f e.1
  filled : filled.Perm
    (List.range' start (b.queue.nextRelease - start) ++ b.queue.delivered.map Prod.fst)

variable {f : Nat → α} {start stop : Nat} {b : Bench α} {out : List α} {filled : List Nat}

theorem Accounted.congr (h : Accounted f start b out filled) {b' : Bench α}
    (keeps : b'.queue.delivered = b.queue.delivered ∧
      b'.queue.nextRelease = b.queue.nextRelease) :
    Accounted f start b' (out ++ []) (filled ++ []) := by
  rw [List.append_nil, List.append_nil]
  refine ⟨?_, ?_, ?_⟩
  · rw [keeps.2]; exact h.out
  · rw [keeps.1]; exact h.items
  · rw [keeps.1, keeps.2]; exact h.filled

theorem accounted_complete {q : Queue α} {id : RequestId} {r : InFlight}
    {taken : List (RequestId × InFlight)} (balanced : Balanced start stop ⟨q, (id, r) :: taken⟩)
    (h : Accounted f start ⟨q, (id, r) :: taken⟩ out filled) {items : List α}
    (honest : items.take r.range.count <+: (List.range' r.range.start r.range.count).map f)
    (atFault : Bool) :
    Accounted f start ⟨q.complete r items atFault, taken⟩ out
      (filled ++ List.range' r.range.start (items.take r.range.count).length) := by
  have hnext := (q.complete_keeps r items atFault).2
  have hperm := balanced.complete_perm items atFault
  have hn : (items.take r.range.count).length ≤ r.range.count := List.length_take_le _ _
  generalize items.take r.range.count = kept at honest hperm hn ⊢
  refine ⟨?_, fun e he => ?_, ?_⟩
  · rw [hnext]; exact h.out
  · have hkept : kept = (List.range' r.range.start kept.length).map f := by
      rw [List.prefix_iff_eq_take, ← List.map_take, List.take_range'_of_length_ge hn] at honest
      exact honest
    rcases List.mem_append.mp (hperm.mem_iff.mp he) with he | he
    · exact Positioned.forall_numbered_iff.mpr hkept e he
    · exact h.items e he
  · have hkeys := hperm.map Prod.fst
    rw [List.map_append, Positioned.map_fst_numbered] at hkeys
    simp only [hnext]
    refine (h.filled.append_right _).trans ?_
    rw [List.append_assoc]
    exact (List.perm_append_comm.trans hkeys.symm).append_left _

theorem accounted_takeReady (balanced : b.Balanced start stop)
    (h : Accounted f start b out filled) :
    Accounted f start { b with queue := b.queue.takeReady.2 } (out ++ b.queue.takeReady.1)
      filled := by
  obtain ⟨hnext, hperm⟩ := balanced.takeReady_perm
  generalize b.queue.takeReady = left at hnext hperm
  obtain ⟨items, q⟩ := left
  simp only at hnext hperm ⊢
  have hle := balanced.start_le
  -- the released positions grow by those of the items
  have hrange : List.range' start (q.nextRelease - start) =
      List.range' start (b.queue.nextRelease - start) ++
        List.range' b.queue.nextRelease items.length := by
    rw [hnext, show b.queue.nextRelease + items.length - start =
      b.queue.nextRelease - start + items.length by omega, ← List.range'_append_1]
    congr 2
    omega
  have hitems := Positioned.forall_numbered_iff.mp fun e he =>
    h.items e (hperm.mem_iff.mpr (List.mem_append_left _ he))
  refine ⟨?_, fun e he => h.items e (hperm.mem_iff.mpr (List.mem_append_right _ he)), ?_⟩
  · rw [hrange, List.map_append, ← hitems, h.out]
  · have hkeys := hperm.map Prod.fst
    rw [List.map_append, Positioned.map_fst_numbered] at hkeys
    rw [hrange, List.append_assoc]
    exact h.filled.trans (hkeys.append_left _)

theorem accounted_apply (balanced : b.Balanced start stop) (h : Accounted f start b out filled)
    {op : Op α} (honest : Honest f b op) :
    Accounted f start (b.apply op) (out ++ b.released op) (filled ++ b.delivered op) := by
  cases op with
  | reserve peer capacity live =>
    cases hr : b.queue.reserve peer capacity live with
    | none => exact h.congr (by simp only [apply, hr, and_self])
    | some x =>
      obtain ⟨batch, failedBy, -, -, -, -, -, heq⟩ := Queue.reserve_eq_some hr
      exact h.congr (by simp only [apply, hr, heq, and_self])
  | take id =>
    cases ht : b.queue.take? id with
    | none => exact h.congr (by simp only [apply, ht, and_self])
    | some x =>
      obtain ⟨-, heq⟩ := Queue.take?_eq_some.mp ht
      exact h.congr (by simp only [apply, ht, heq, and_self])
  | complete id items atFault =>
    cases hr : b.taken.lookup id with
    | none => simpa only [apply, released, delivered, hr] using h.congr ⟨rfl, rfl⟩
    | some r =>
      have hperm := Keyed.perm_cons_filter balanced.nodup_requests.2 (Keyed.mem_of_lookup hr)
      simp only [Honest, hr] at honest
      simpa only [apply, released, delivered, hr, List.append_nil] using
        accounted_complete (balanced.perm hperm) ⟨h.out, h.items, h.filled⟩ honest atFault
  | fail id =>
    cases hf : b.queue.fail? id with
    | none => exact h.congr (by simp only [apply, hf, and_self])
    | some x => exact h.congr (by simpa only [apply, hf] using Queue.fail?_keeps hf)
  | failPeer peer => exact h.congr (Queue.failPeer_keeps b.queue peer)
  | takeReady =>
    have ready := accounted_takeReady balanced h
    rwa [← List.append_nil filled] at ready

theorem accounted_run (balanced : b.Balanced start stop) (h : Accounted f start b out filled)
    {ops : List (Op α)} (faithful : Faithful f b ops) :
    Accounted f start (b.run ops) (out ++ history released b ops)
      (filled ++ history delivered b ops) := by
  induction ops generalizing b out filled with
  | nil => exact h.congr ⟨rfl, rfl⟩
  | cons op ops ih =>
    have hrest := ih (balanced_apply balanced op) (accounted_apply balanced h faithful.1) faithful.2
    rwa [List.append_assoc, List.append_assoc] at hrest

/-- Whatever becomes of its requests, a queue gives out the items of its positions once each and in
order, as far as they were delivered from the front, and is done with the last of them. -/
theorem released_once_in_order {q : Queue α} (h : q.Opens start stop) (f : Nat → α)
    (ops : List (Op α)) (faithful : Faithful f ⟨q, []⟩ ops) :
    let b := run ⟨q, []⟩ ops
    let out := history released ⟨q, []⟩ ops
    let filled := history delivered ⟨q, []⟩ ops
    out = (List.range' start (b.queue.nextRelease - start)).map f ∧
      start ≤ b.queue.nextRelease ∧ b.queue.nextRelease ≤ stop ∧ filled.Nodup ∧
      (∀ p, start ≤ p → p < b.queue.nextRelease → p ∈ filled) ∧
      (b.queue.isDone ↔ ∀ p, start ≤ p → p < stop → p ∈ filled ∧ p < b.queue.nextRelease) ∧
      ((∀ p, start ≤ p → p < stop → p ∈ filled) → (b.apply .takeReady).queue.isDone) := by
  intro b out filled
  have hb : b.Balanced start stop := balanced_run h.balanced ops
  have hstart : Accounted f start ⟨q, []⟩ [] [] := by
    obtain ⟨hnext, hdelivered⟩ := h.untouched
    constructor <;> simp [hnext, hdelivered]
  have hrun : Accounted f start b out filled := accounted_run h.balanced hstart faithful
  have hle := hb.start_le
  have hstop := hb.next_le h.start_le_stop
  have hmem : ∀ p, p ∈ filled ↔
      (start ≤ p ∧ p < b.queue.nextRelease) ∨ p ∈ b.queue.delivered.map Prod.fst := by
    intro p
    rw [hrun.filled.mem_iff, List.mem_append, List.mem_range'_1]
    have : start + (b.queue.nextRelease - start) = b.queue.nextRelease := by omega
    rw [this]
  have hdone : b.queue.isDone ↔ stop ≤ b.queue.nextRelease := by
    rw [Queue.isDone_iff, hb.stop_eq]
  refine ⟨hrun.out, hle, hstop, ?_, fun p hp hlt => (hmem p).mpr (.inl ⟨hp, hlt⟩),
    ?_, fun hall => ?_⟩
  · exact hrun.filled.nodup_iff.mpr hb.nodup_out
  · rw [hdone]
    constructor
    · intro hge p hp hlt
      exact ⟨(hmem p).mpr (.inl ⟨hp, by omega⟩), by omega⟩
    · intro hall
      by_contra hlt
      have := (hall b.queue.nextRelease hle (by omega)).2
      omega
  · have hready := accounted_takeReady hb hrun
    have hb' := balanced_takeReady hb
    have hstart' : start ≤ b.queue.takeReady.2.nextRelease := hb'.start_le
    have hstop' : b.queue.takeReady.2.stop = stop := hb'.stop_eq
    rw [Queue.isDone_iff]
    change b.queue.takeReady.2.stop ≤ b.queue.takeReady.2.nextRelease
    rw [hstop']
    by_contra hlt
    -- the next position was delivered, and nothing is left of it
    have hnext : b.queue.takeReady.2.nextRelease ∈ filled := hall _ hstart' (by omega)
    rw [hready.filled.mem_iff, List.mem_append, List.mem_range'_1] at hnext
    rcases hnext with hnext | hnext
    · simp only at hnext
      omega
    · exact Keyed.lookup_eq_none_iff.mp (Queue.get?_release (Nat.le_refl _)) hnext

theorem released_once_in_order_oversized :
    let f : Nat → Nat := (· + 100)
    let q : Queue Nat := .ofCount 1 10 3 8 true
    let ops : List (Op Nat) :=
      [.reserve 1 2 [1, 2], .reserve 2 5 [1, 2], .take ⟨1, 1⟩, .complete ⟨1, 1⟩ [112, 7, 7] true,
        .takeReady, .take ⟨1, 0⟩, .complete ⟨1, 0⟩ [110] false, .takeReady, .reserve 1 5 [1, 2],
        .fail ⟨1, 2⟩, .reserve 2 5 [1, 2], .take ⟨1, 3⟩, .complete ⟨1, 3⟩ [111] false, .takeReady]
    Faithful f ⟨q, []⟩ ops ∧ (run ⟨q, []⟩ ops).queue.isDone = true ∧
      history released ⟨q, []⟩ ops = (List.range' 10 3).map f := by
  intro f q ops
  have hq : q.Opens 10 13 := .count 1 10 3 8 true
  have faithful : Faithful f ⟨q, []⟩ ops := by decide +kernel
  have next : (run ⟨q, []⟩ ops).queue.nextRelease = 13 := by decide +kernel
  have done : (run ⟨q, []⟩ ops).queue.isDone = true := by decide +kernel
  have out := (released_once_in_order hq f ops faithful).1
  rw [next] at out
  exact ⟨faithful, done, out⟩

end Bench
end Fetch
end ChainSync
